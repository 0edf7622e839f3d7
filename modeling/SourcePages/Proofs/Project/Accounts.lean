import Mathlib.Algebra.Ring.Nat
import Mathlib.Data.List.Perm.Basic
import SourcePages.Proofs.Project.Order

namespace SourcePages

theorem perm_of_either {α β : Type} {f g : α → Option β} {h : α → β} {items : List α}
    (either : ∀ a ∈ items, f a = some (h a) ∧ g a = none ∨ f a = none ∧ g a = some (h a)) :
    (items.filterMap f ++ items.filterMap g).Perm (items.map h) := by
  induction items with
  | nil => exact .refl _
  | cons a rest ih =>
    have later := ih fun b member => either b (List.mem_cons_of_mem _ member)
    rcases either a List.mem_cons_self with ⟨first, second⟩ | ⟨first, second⟩
    · rw [List.filterMap_cons_some first, List.filterMap_cons_none second, List.map_cons]
      exact later.cons _
    · rw [List.filterMap_cons_none first, List.filterMap_cons_some second, List.map_cons]
      exact List.perm_middle.trans (later.cons _)

theorem total_eq_sum (count : Document → Nat) (documents : List Document) :
    total count documents = (documents.map count).sum := by
  induction documents with
  | nil => rfl
  | cons d rest ih => rw [total, ih, List.map_cons, List.sum_cons]

theorem total_kinds {documents : List Document}
    (kinds : ∀ d ∈ documents, d.units = d.types + d.functions) :
    total Document.units documents =
      total Document.types documents + total Document.functions documents := by
  induction documents with
  | nil => rfl
  | cons d rest ih =>
    have own := kinds d List.mem_cons_self
    have later := ih fun d member => kinds d (List.mem_cons_of_mem _ member)
    simp only [total]
    omega

/-- What becomes of a file in a run: its page belongs to another file, or it is documented with some
result. -/
inductive Account where
  | collided (c : Collision)
  | settled (r : Result)

namespace Account

def file : Account → SourceFile
  | collided c => c.file
  | settled r => r.file

def collision? : Account → Option Collision
  | collided c => some c
  | settled _ => none

def result? : Account → Option Result
  | collided _ => none
  | settled r => some r

end Account

def IsTaken (outputRoot : Path) (given : List PageOwner) (f : SourceFile) : Prop :=
  ∃ page ∈ given, page.output.same (pagePath outputRoot ⟨f.relative⟩)

/-- Accounts of files in their order. The files that collide are those whose page is taken, or is
that of an earlier file. -/
structure Accounts (outputRoot : Path) (given : List PageOwner) (files : List SourceFile)
    (accounts : List Account) : Prop where
  files : accounts.map Account.file = files
  collided : ∀ before a after, accounts = before ++ a :: after →
    (a.collision?.isSome ↔ IsTaken outputRoot given a.file ∨
      ∃ b ∈ before, (pagePath outputRoot ⟨b.file.relative⟩).same
        (pagePath outputRoot ⟨a.file.relative⟩))

section

variable {outputRoot : Path} {given next : List PageOwner} {files : List SourceFile}

theorem Accounts.cons {a : Account} {accounts : List Account}
    (later : Accounts outputRoot next files accounts)
    (own : a.collision?.isSome ↔ IsTaken outputRoot given a.file)
    (further : ∀ f, IsTaken outputRoot next f ↔ IsTaken outputRoot given f ∨
      (pagePath outputRoot ⟨a.file.relative⟩).same (pagePath outputRoot ⟨f.relative⟩)) :
    Accounts outputRoot given (a.file :: files) (a :: accounts) := by
  refine ⟨by rw [List.map_cons, later.files], fun before b after parts => ?_⟩
  cases before with
  | nil =>
    obtain ⟨rfl, -⟩ := List.cons.inj parts
    simpa using own
  | cons c before =>
    obtain ⟨rfl, rest⟩ := List.cons.inj parts
    rw [later.collided before b after rest, further, or_assoc, List.exists_mem_cons_iff]

theorem exists_accounts {results : List Result}
    (settled : results.map (·.file) = (splitFiles outputRoot given files).unique) :
    ∃ accounts, Accounts outputRoot given files accounts ∧
      accounts.filterMap Account.collision? = (splitFiles outputRoot given files).collided ∧
      accounts.filterMap Account.result? = results := by
  -- Along the files, the pages that are given are those of the earlier files that have one.
  induction files generalizing given results with
  | nil =>
    rw [splitFiles, List.map_eq_nil_iff] at settled
    subst settled
    exact ⟨[], ⟨rfl, by simp⟩, rfl, rfl⟩
  | cons file rest ih =>
    cases found : given.find? (·.output.same (pagePath outputRoot ⟨file.relative⟩)) with
    | some page =>
      rw [splitFiles_taken found] at settled ⊢
      obtain ⟨accounts, later, collided, all⟩ := ih settled
      have same : page.output.same (pagePath outputRoot ⟨file.relative⟩) = true := by
        simpa using List.find?_some found
      have taken : IsTaken outputRoot given file := ⟨page, List.mem_of_find?_eq_some found, same⟩
      have own : (Account.collided ⟨file, pagePath outputRoot ⟨file.relative⟩,
        page.owner⟩).collision?.isSome ↔ IsTaken outputRoot given file := iff_of_true rfl taken
      refine ⟨_, later.cons own fun f => ?_, ?_, all⟩
      · -- A page that is that of the file is given already.
        refine (or_iff_left_of_imp fun also => ⟨page, List.mem_of_find?_eq_some found, ?_⟩).symm
        rw [Path.same_iff] at same also ⊢
        exact same.trans also
      · rw [← collided]
        rfl
    | none =>
      rw [splitFiles_fresh found] at settled ⊢
      obtain ⟨r, others, rfl, rfl, settled⟩ := List.map_eq_cons_iff.mp settled
      obtain ⟨accounts, later, collided, all⟩ := ih settled
      have fresh : ¬ IsTaken outputRoot given r.file := by
        rintro ⟨page, member, same⟩
        exact absurd same (List.find?_eq_none.mp found page member)
      have own : (Account.settled r).collision?.isSome ↔ IsTaken outputRoot given r.file :=
        iff_of_false Bool.false_ne_true fresh
      refine ⟨_, later.cons own fun f => ?_, collided, ?_⟩
      · simp [IsTaken, or_and_right, exists_or, Account.file]
      · rw [← all]
        rfl

end

namespace Account

def document? (a : Account) : Option Document := a.result?.bind Result.document?

def collisionFailure? (a : Account) : Option Failure :=
  a.collision?.map fun c => c.file.failure c.message

def faultFailure? (a : Account) : Option Failure :=
  a.result?.bind fun r => r.fault?.map fun e => r.file.failure e.message

end Account

namespace Project

/-- What may become of a file while others are documented at the same time: it is read from one tree,
and its directory and its page are made in others. -/
inductive MayEnd (p : Project) (f : SourceFile) : Except FileFault Document → Prop where
  | unread {t : FileTree} {e : IoFault} (refused : t.read f.path = .error e) :
      p.MayEnd f (.error (.read f.path e))
  | documented {t : FileTree} {bytes : List UInt8} (file : t.read f.path = .ok bytes) :
      p.MayEnd f (.ok (p.documentOf f bytes))
  | unopened {directory : Path} (e : IoFault) (parent : (p.pageOf f).parent? = some directory) :
      p.MayEnd f (.error (.createDir directory e))
  | unwritten (e : IoFault) : p.MayEnd f (.error (.write (p.pageOf f) e))

theorem writePage_error {t : FileTree} {output : Path} {text : String} {e : FileFault}
    (failed : (writePage t output text).2 = .error e) :
    (∃ directory fault, output.parent? = some directory ∧ e = .createDir directory fault) ∨
      ∃ fault, e = .write output fault := by
  unfold writePage at failed
  dsimp only at failed
  split at failed
  · split at failed
    · cases failed
    · cases failed
      exact .inr ⟨_, rfl⟩
  · rename_i directory parent
    split at failed
    · split at failed
      · cases failed
      · cases failed
        exact .inr ⟨_, rfl⟩
    · cases failed
      exact .inl ⟨directory, _, parent, rfl⟩

theorem mayEnd_process (p : Project) (t : FileTree) (f : SourceFile) :
    p.MayEnd f (p.process t f).2 := by
  unfold process
  split
  · rename_i refused
    exact .unread refused
  · rename_i bytes file
    dsimp only
    split
    · exact .documented file
    · split
      · exact .documented file
      · rename_i failed
        rcases writePage_error (congrArg Prod.snd failed) with
          ⟨directory, fault, parent, rfl⟩ | ⟨fault, rfl⟩
        · exact .unopened fault parent
        · exact .unwritten fault

theorem mayEnd_of_mem_results {p : Project} {t : FileTree} {files : List SourceFile} {r : Result}
    (member : r ∈ (p.processAll t files).2) : p.MayEnd r.file r.outcome := by
  induction files generalizing t with
  | nil => cases member
  | cons f rest ih =>
    rw [processAll_cons] at member
    rcases List.mem_cons.mp member with rfl | later
    · exact mayEnd_process p t f
    · exact ih later

theorem exists_resultsFor {files : List SourceFile} {ended : List Result}
    (all : (ended.map (·.file)).Perm files) (distinct : files.Nodup) :
    (resultsFor files ended).map (·.file) = files ∧ (resultsFor files ended).Perm ended := by
  have composed := congrFun₂ (List.eq_map_comp_perm fun r : Result => r.file) files ended
  obtain ⟨results, same, perm⟩ := composed.mpr all.symm
  rw [resultsFor_of_perm perm.symm same.symm distinct]
  exact ⟨same.symm, perm⟩

theorem MayEnd.document {p : Project} {f : SourceFile} {d : Document} (h : p.MayEnd f (.ok d)) :
    d.source = ⟨f.relative⟩ ∧ d.units = d.types + d.functions := by
  cases h with
  | @documented t bytes file =>
    obtain ⟨units, types, functions⟩ := documentOf_counts p f bytes
    refine ⟨rfl, ?_⟩
    rw [units, types, functions, countKind_add]

theorem sources_of_results {p : Project} {results : List Result}
    (genuine : ∀ r ∈ results, p.MayEnd r.file r.outcome) :
    ((results.filterMap Result.document?).map Document.source ++
      (results.filterMap fun r => r.fault?.map fun e => r.file.failure e.message).map
        Failure.source).Perm (results.map fun r => ⟨r.file.relative⟩) := by
  rw [List.map_filterMap, List.map_filterMap]
  apply perm_of_either
  rintro ⟨f, outcome⟩ member
  cases outcome with
  | ok d => exact .inl ⟨congrArg some (genuine _ member).document.1, rfl⟩
  | error e => exact .inr ⟨rfl, rfl⟩

/-- What a run comes to if the files with pages end in some order. The report tells of them in the
order in which they were given. -/
def gather (p : Project) (after : FileTree) (files : List SourceFile) (ended : List Result) :
    RunOutcome :=
  let split := splitFiles p.config.outputRoot [] files
  { tree := after
    report := p.report files split (resultsFor split.unique ended)
    settled := split.collided.map (·.file) ++ ended.map (·.file)
    notices :=
      .generating p.repository.name p.repository.baseUrl ::
        split.collided.map (fun c => c.file.skipped c.message) ++
        ended.filterMap fun r => r.fault?.map fun e => r.file.skipped e.message }

theorem run_eq_gather (p : Project) (t : FileTree) (files : List SourceFile) :
    p.run t files = p.gather (p.processAll t (splitFiles p.config.outputRoot [] files).unique).1 files
      (p.processAll t (splitFiles p.config.outputRoot [] files).unique).2 := by
  have same : resultsFor (splitFiles p.config.outputRoot [] files).unique
      (p.processAll t (splitFiles p.config.outputRoot [] files).unique).2 =
      (p.processAll t (splitFiles p.config.outputRoot [] files).unique).2 :=
    resultsFor_of_perm (.refl _) (processAll_files p t _) nodup_unique
  rw [gather, same]
  rfl

end Project

/-- A run that accounts for each of some files once. -/
structure RunOutcome.AccountsFor (r : RunOutcome) (p : Project) (files : List SourceFile) : Prop where
  found : r.report.stats.found = files.length
  divided : r.report.stats.written + r.report.stats.failed = files.length
  written : r.report.stats.written = r.report.documents.length
  failed : r.report.stats.failed = r.report.failures.length
  units : r.report.stats.units = (r.report.documents.map Document.units).sum
  kinds : r.report.stats.units = r.report.stats.types + r.report.stats.functions
  sources : (r.report.documents.map Document.source ++ r.report.failures.map Failure.source).Perm
    (files.map fun f => ⟨f.relative⟩)
  settled : r.settled.Perm files
  ordered : ∃ accounts : List Account, accounts.map Account.file = files ∧
    (∀ before a after, accounts = before ++ a :: after →
      (a.collision?.isSome ↔ ∃ b ∈ before, (p.pageOf b.file).same (p.pageOf a.file))) ∧
    (∀ a ∈ accounts, ∀ result ∈ a.result?, p.MayEnd result.file result.outcome) ∧
    r.report.documents = accounts.filterMap Account.document? ∧
    r.report.failures =
      accounts.filterMap Account.collisionFailure? ++ accounts.filterMap Account.faultFailure?

namespace Project

section

variable {p : Project} {after : FileTree} {files : List SourceFile} {ended : List Result}
  {accounts : List Account}
  (collided : accounts.filterMap Account.collision? =
    (splitFiles p.config.outputRoot [] files).collided)
  (results : accounts.filterMap Account.result? =
    resultsFor (splitFiles p.config.outputRoot [] files).unique ended)

include results

theorem documents_gather : (p.gather after files ended).report.documents =
    accounts.filterMap Account.document? := by
  have documents : (p.gather after files ended).report.documents =
    (resultsFor (splitFiles p.config.outputRoot [] files).unique ended).filterMap
      Result.document? := rfl
  rw [documents, ← results, List.filterMap_filterMap]
  rfl

include collided

theorem failures_gather : (p.gather after files ended).report.failures =
    accounts.filterMap Account.collisionFailure? ++ accounts.filterMap Account.faultFailure? := by
  have failures : (p.gather after files ended).report.failures =
    (splitFiles p.config.outputRoot [] files).collided.map (fun c => c.file.failure c.message) ++
      (resultsFor (splitFiles p.config.outputRoot [] files).unique ended).filterMap
        fun r => r.fault?.map fun e => r.file.failure e.message := rfl
  rw [failures, ← results, ← collided, List.filterMap_filterMap, List.map_filterMap]
  rfl

end

theorem files_of_accounts (accounts : List Account) :
    ((accounts.filterMap Account.collision?).map (·.file) ++
      (accounts.filterMap Account.result?).map (·.file)).Perm (accounts.map Account.file) := by
  rw [List.map_filterMap, List.map_filterMap]
  apply perm_of_either
  intro a member
  cases a with
  | collided c => exact .inl ⟨rfl, rfl⟩
  | settled r => exact .inr ⟨rfl, rfl⟩

theorem accountsFor_gather {p : Project} {after : FileTree} {files : List SourceFile}
    {ended : List Result}
    (all : (ended.map (·.file)).Perm (splitFiles p.config.outputRoot [] files).unique)
    (genuine : ∀ r ∈ ended, p.MayEnd r.file r.outcome) :
    (p.gather after files ended).AccountsFor p files := by
  obtain ⟨order, perm⟩ := exists_resultsFor all nodup_unique
  obtain ⟨accounts, kept, collided, results⟩ := exists_accounts order
  have inOrder : ∀ r ∈ resultsFor (splitFiles p.config.outputRoot [] files).unique ended,
      p.MayEnd r.file r.outcome := fun r member => genuine r (perm.subset member)
  have parts := files_of_accounts accounts
  rw [collided, results, kept.files] at parts
  have settled : (p.gather after files ended).settled.Perm files :=
    ((perm.symm.map _).append_left _).trans parts
  have sources : ((p.gather after files ended).report.documents.map Document.source ++
      (p.gather after files ended).report.failures.map Failure.source).Perm
      (files.map fun f => ⟨f.relative⟩) := by
    have told := parts.map fun f => (⟨f.relative⟩ : Path)
    rw [List.map_append, List.map_map, List.map_map] at told
    refine .trans ?_ told
    rw [gather, report]
    dsimp only
    rw [List.map_append, List.map_map]
    refine (List.perm_append_comm_assoc _ _ _).trans ?_
    exact (sources_of_results inOrder).append_left _
  have kinds : ∀ d ∈ (p.gather after files ended).report.documents,
      d.units = d.types + d.functions := by
    intro d member
    obtain ⟨r, made, done⟩ := mem_documents.mp member
    have own := inOrder r made
    rw [done] at own
    exact own.document.2
  have divided := sources.length_eq
  simp only [List.length_append, List.length_map] at divided
  refine ⟨rfl, divided, rfl, rfl, total_eq_sum _ _, total_kinds kinds, sources, settled, accounts,
    kept.files, ?_, ?_, documents_gather results, failures_gather collided results⟩
  · intro before a after parts
    have own := kept.collided before a after parts
    simpa [IsTaken, pageOf] using own
  · intro a member result same
    apply inOrder
    rw [← results]
    exact List.mem_filterMap.mpr ⟨a, member, same⟩

end Project

/-- A run loses no file and counts none twice, whether the files are documented one after another or
several at a time, with whatever results and in whatever order. -/
theorem run_accounts (p : Project) (files : List SourceFile) :
    (∀ t, (p.run t files).AccountsFor p files) ∧
      ∀ after ended, (ended.map Result.file).Perm (splitFiles p.config.outputRoot [] files).unique →
        (∀ r ∈ ended, p.MayEnd r.file r.outcome) → (p.gather after files ended).AccountsFor p files := by
  refine ⟨fun t => ?_, fun after ended all genuine => Project.accountsFor_gather all genuine⟩
  rw [Project.run_eq_gather]
  apply Project.accountsFor_gather
  · rw [Project.processAll_files]
  · intro r member
    exact Project.mayEnd_of_mem_results member

def repeatedFiles : List SourceFile :=
  [sourceAt [] ["a.ts"], sourceAt [] ["a.js"], sourceAt [] ["b", "c.ts"], sourceAt [] ["a.ts"]]

def repeatedResults : List Result :=
  [⟨sourceAt [] ["b", "c.ts"],
      .error (.write (sampleProject.pageOf (sourceAt [] ["b", "c.ts"])) .isDirectory)⟩,
    ⟨sourceAt [] ["a.ts"],
      (sampleProject.process (sampleTree sampleEntries) (sourceAt [] ["a.ts"])).2⟩]

theorem run_accounts_repeated :
    (repeatedResults.map Result.file).Perm
      (splitFiles sampleProject.config.outputRoot [] repeatedFiles).unique ∧
    (∀ r ∈ repeatedResults, sampleProject.MayEnd r.file r.outcome) ∧
    (sampleProject.gather (sampleTree sampleEntries) repeatedFiles repeatedResults).AccountsFor
      sampleProject repeatedFiles := by
  have unique : (splitFiles sampleProject.config.outputRoot [] repeatedFiles).unique =
      [sourceAt [] ["a.ts"], sourceAt [] ["b", "c.ts"]] := by decide +kernel
  have all : (repeatedResults.map Result.file).Perm
      (splitFiles sampleProject.config.outputRoot [] repeatedFiles).unique := by
    rw [unique]
    exact .swap _ _ _
  have genuine : ∀ r ∈ repeatedResults, sampleProject.MayEnd r.file r.outcome := by
    intro r member
    rcases List.mem_cons.mp member with rfl | member
    · exact .unwritten _
    · rw [List.mem_singleton.mp member]
      exact Project.mayEnd_process _ _ _
  exact ⟨all, genuine, (run_accounts sampleProject repeatedFiles).2 _ _ all genuine⟩

end SourcePages
