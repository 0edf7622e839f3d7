import SourcePages.Proofs.Command.Telling
import SourcePages.Proofs.Project.Accounts
import SourcePages.Proofs.Project.Generate
import SourcePages.Proofs.Project.Loading

namespace SourcePages

theorem RunOutcome.AccountsFor.hasFailures_iff {r : RunOutcome} {p : Project}
    {files : List SourceFile} (accounts : r.AccountsFor p files) :
    r.report.hasFailures = true ↔ r.report.stats.written ≠ r.report.stats.found := by
  have divided := accounts.divided
  rw [← accounts.found, accounts.failed] at divided
  cases failures : r.report.failures with
  | nil =>
    rw [failures, List.length_nil] at divided
    simpa [Report.hasFailures, failures] using divided
  | cons f rest =>
    rw [failures, List.length_cons] at divided
    simp only [Report.hasFailures, failures, List.isEmpty_cons, Bool.not_false, true_iff]
    omega

namespace Command

def Finish.report? : Finish → Option Report
  | .done _ _ outcome => some outcome.report
  | _ => none

def Finish.Textual [Path.Encoding] (f : Finish) : Prop :=
  ∀ r ∈ f.report?, ∀ p ∈ r.paths, Path.Encoding.isText p = true

theorem Finish.Textual.tells [Path.Encoding] {f : Finish} (textual : f.Textual) (a : Arguments)
    {r : Report} (reported : r ∈ f.report?) : tells a r = true := by
  rw [Command.tells, Option.all_eq_true]
  intro format _
  cases format with
  | summary => rfl
  | json => exact List.all_eq_true.mpr (textual r reported)
  | yaml => exact List.all_eq_true.mpr (textual r reported)

theorem faultStatus_ne_zero (fault : ConfigFault) : faultStatus fault ≠ 0 := by
  unfold faultStatus
  split <;> decide

theorem faultStatus_eq_abort_iff {fault : ConfigFault} :
    faultStatus fault = 101 ↔ fault = .glob .abort := by
  unfold faultStatus
  split <;> simp_all

theorem faultStatus_eq_one {fault : ConfigFault} (other : faultStatus fault ≠ 101) :
    faultStatus fault = 1 := by
  unfold faultStatus at other ⊢
  split <;> simp_all

/-- How a command may end. Several files may be documented at a time, and they end in some order. -/
inductive MayFinish [Glob.Engine] (t : FileTree) (a : Arguments) : Finish → Prop where
  | failed {fault : ConfigFault} (failed : Project.load t a.toConfig = .error fault) :
      MayFinish t a (.failed a fault)
  | done {p : Project} {after : FileTree} {ended : List Result}
      (loaded : Project.load t a.toConfig = .ok p)
      (all : (ended.map (·.file)).Perm
        (splitFiles p.config.outputRoot [] (p.sources t)).unique)
      (genuine : ∀ r ∈ ended, p.MayEnd r.file r.outcome) :
      MayFinish t a (.done a (p.scan t).notices (p.gather after (p.sources t) ended))

section

variable [Glob.Engine] {t : FileTree} {a : Arguments}

theorem run_loaded {p : Project} (loaded : Project.load t a.toConfig = .ok p) :
    run t a = .done a (p.scan t).notices (p.generate t) := by
  unfold run
  rw [loaded]
  rfl

theorem run_failed {fault : ConfigFault} (failed : Project.load t a.toConfig = .error fault) :
    run t a = .failed a fault := by
  unfold run
  rw [failed]

theorem execute_read {args : List String} (read : readArguments args = .ok a) :
    execute t args = run t a := by
  rw [execute, read]

theorem mayFinish_run (t : FileTree) (a : Arguments) : MayFinish t a (run t a) := by
  cases loaded : Project.load t a.toConfig with
  | error fault =>
    rw [run_failed loaded]
    exact .failed loaded
  | ok p =>
    rw [run_loaded loaded, Project.generate, Project.run_eq_gather]
    exact .done loaded (by rw [Project.processAll_files]) fun r member =>
      Project.mayEnd_of_mem_results member

theorem tree_congr {a' : Arguments} (same : a'.toConfig = a.toConfig) :
    (run t a').tree t = (run t a).tree t := by
  cases loaded : Project.load t a.toConfig with
  | error fault =>
    rw [run_failed loaded, run_failed (same ▸ loaded)]
    rfl
  | ok p =>
    rw [run_loaded loaded, run_loaded (same ▸ loaded)]
    rfl

variable {f : Finish} (ends : MayFinish t a f)

include ends

theorem MayFinish.of_failed {fault : ConfigFault}
    (failed : Project.load t a.toConfig = .error fault) : f = .failed a fault := by
  cases ends with
  | failed failed' =>
    cases failed.symm.trans failed'
    rfl
  | done loaded => cases failed.symm.trans loaded

variable [Path.Encoding]

theorem MayFinish.status_eq_zero_iff : f.status = 0 ↔
    (∃ p, Project.load t a.toConfig = .ok p) ∧ (∀ r ∈ f.report?, tells a r = true) ∧
      (a.has .strict = true → ∀ r ∈ f.report?, r.stats.written = r.stats.found) := by
  cases ends with
  | failed failed => simp [failed, Finish.status, faultStatus_ne_zero]
  | @done p after ended loaded all genuine =>
    have accounts : (p.gather after (p.sources t) ended).AccountsFor p (p.sources t) :=
      Project.accountsFor_gather all genuine
    have told := accounts.hasFailures_iff
    simp [loaded, Finish.status, Finish.report?, told]

theorem MayFinish.status_eq_abort_iff :
    f.status = 101 ↔ Project.load t a.toConfig = .error (.glob .abort) := by
  cases ends with
  | failed failed => rw [Finish.status, faultStatus_eq_abort_iff, failed, Except.error.injEq]
  | done loaded all genuine =>
    rw [loaded, Finish.status]
    split <;> exact ⟨nofun, nofun⟩

theorem MayFinish.status_eq_one (wrong : f.status ≠ 0) (other : f.status ≠ 101) :
    f.status = 1 := by
  cases ends with
  | failed failed => exact faultStatus_eq_one other
  | done loaded all genuine =>
    rw [Finish.status] at wrong ⊢
    split
    · rfl
    · rename_i fine
      exact absurd (if_neg fine) wrong

end

def doubledEntries : List (String × Node) :=
  [("a.js", .file []), ("a.ts", .file []),
    ("package.json", .file (Text.encode "\x7b\"homepage\": \"site\"\x7d".toList))]

def strictArguments : Arguments := { includes := ["**"], flags := [.strict], threads := 1 }

def doubledProject : Project :=
  { sampleProject with config := strictArguments.toConfig, repository := ⟨"site", none⟩ }

theorem doubledEntries_linkFree : (Node.dir doubledEntries).LinkFree := by
  refine .dir (List.forall_mem_cons.mpr ⟨.file _, List.forall_mem_cons.mpr ⟨.file _, ?_⟩⟩)
  exact List.forall_mem_singleton.mpr (.file _)

theorem doubledProject_loaded :
    Project.load (sampleTree doubledEntries) strictArguments.toConfig = .ok doubledProject := by
  have leads : (sampleTree doubledEntries).Leads ⟨"./package.json"⟩ [] ([] ++ ["package.json"]) :=
    sampleTree_leads (by decide) (by decide) ⟨[['.']], by decide⟩
  have found := leads.node?_found doubledEntries_linkFree rfl
  have path : strictArguments.toConfig.resolve strictArguments.toConfig.packageFile =
      ⟨"./package.json"⟩ := by decide
  have read : (sampleTree doubledEntries).readText ⟨"./package.json"⟩ =
      .ok "\x7b\"homepage\": \"site\"\x7d" := by
    rw [FileTree.readText, FileTree.read, found]
    rfl
  simp only [Project.load, path, readPackage, readManifest, read]
  rfl

theorem doubled_sources : doubledProject.sources (sampleTree doubledEntries) =
    [sourceAt [] ["a.js"], sourceAt [] ["a.ts"], sourceAt [] ["package.json"]] :=
  sampleProject_sources doubledEntries_linkFree rfl (by decide +kernel) (by decide +kernel)

theorem doubled_written_ne_found :
    (doubledProject.generate (sampleTree doubledEntries)).report.stats.written ≠
      (doubledProject.generate (sampleTree doubledEntries)).report.stats.found := by
  have found : (doubledProject.generate (sampleTree doubledEntries)).report.stats.found = 3 :=
    congrArg List.length doubled_sources
  have unique : (splitFiles doubledProject.config.outputRoot []
      (doubledProject.sources (sampleTree doubledEntries))).unique.length = 2 := by
    rw [doubled_sources]
    decide +kernel
  have settled := congrArg List.length (doubledProject.processAll_files (sampleTree doubledEntries)
    (splitFiles doubledProject.config.outputRoot []
      (doubledProject.sources (sampleTree doubledEntries))).unique)
  rw [List.length_map, unique] at settled
  have written : (doubledProject.generate (sampleTree doubledEntries)).report.stats.written ≤ 2 :=
    settled ▸ List.length_filterMap_le Result.document? _
  omega

end Command

end SourcePages
