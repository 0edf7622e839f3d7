import SourcePages.Proofs.FileTree.NewDirectories
import SourcePages.Proofs.Project.Accounts

namespace SourcePages

theorem gains_writePage {t s : FileTree} {output : Path} {text : String} {e : FileFault}
    (failed : writePage t output text = (s, .error e)) : t.Gains s (·.Above output) := by
  unfold writePage at failed
  dsimp only at failed
  split at failed
  · split at failed
    · cases failed
    · cases failed
      exact .refl t
  · rename_i directory parent
    have opened : t.Gains (t.makeDirectories directory).1 (·.Above output) :=
      (FileTree.gains_makeDirectories t directory).mono fun _ above => above.above parent
    -- The directories stay, whether they were not all made or the page could not be written.
    split at failed
    · rename_i made
      rw [made] at opened
      split at failed
      · cases failed
      · cases failed
        exact opened
    · rename_i stopped
      rw [stopped] at opened
      cases failed
      exact opened

namespace Project

theorem gains_process {p : Project} {t s : FileTree} {f : SourceFile} {e : FileFault}
    (failed : p.process t f = (s, .error e)) :
    t.Gains s (·.Above (p.pageOf f)) ∧ ∀ path fault, e = .read path fault → s = t := by
  unfold process at failed
  split at failed
  · cases failed
    exact ⟨.refl t, fun _ _ _ => rfl⟩
  · dsimp only at failed
    split at failed
    · cases failed
    · split at failed
      · cases failed
      · rename_i unwritten
        cases failed
        refine ⟨gains_writePage unwritten, fun path fault read => ?_⟩
        rw [read] at unwritten
        rcases writePage_error (congrArg Prod.snd unwritten) with ⟨_, _, -, other⟩ | ⟨_, other⟩ <;>
          cases other

end Project

/-- A file that fails leaves no trace in any file. -/
theorem process_failed_traceless {p : Project} {t s : FileTree} {f : SourceFile} {e : FileFault}
    (failed : p.process t f = (s, .error e)) :
    (∀ place bytes, s.top.seen? place = some (.file bytes) ↔
      t.top.seen? place = some (.file bytes)) ∧
    (∀ path fault, e = .read path fault → s = t) ∧
    t.Gains s (·.Above (p.pageOf f)) := by
  obtain ⟨gains, unread⟩ := Project.gains_process failed
  exact ⟨fun place bytes => gains.file_iff, unread, gains⟩

def namelessEntries : List (String × Node) := [("b", .dir [("..c", .file [])])]

theorem namelessEntries_linkFree : (Node.dir namelessEntries).LinkFree :=
  .dir (List.forall_mem_singleton.mpr (.single _ _))

/-- The directories for a page that cannot be written are made and stay. -/
theorem process_failed_traceless_nameless :
    ∃ s, sampleProject.process (sampleTree namelessEntries) (sourceAt [] ["b", "..c"]) =
        (s, .error (.write ⟨"./docs/b/.."⟩ .isDirectory)) ∧
      (sampleTree namelessEntries).IsNew s ["docs", "b"] ∧
      (∀ place bytes, s.top.seen? place = some (.file bytes) ↔
        (sampleTree namelessEntries).top.seen? place = some (.file bytes)) ∧
      (sampleTree namelessEntries).Gains s (·.Above ⟨"./docs/b/.."⟩) := by
  have h := Project.Grounded.of_node namelessEntries_linkFree sampleProject_ordinary
    sampleTree_rooted
  have sited : Sited (sampleTree namelessEntries) [] sampleProject.config.outputDir.steps
      (sourceAt [] ["b", "..c"]) := by
    have out : sampleProject.config.outputDir.steps = ["docs"] := by decide +kernel
    refine ⟨["b"], "..c", rfl, by simp, by decide, ⟨[], rfl⟩, fun rest inside => ?_⟩
    rw [out, List.singleton_append, List.singleton_append] at inside
    exact absurd (List.cons.inj inside).1 (by decide)
  have page : sampleProject.pageOf (sourceAt [] ["b", "..c"]) = ⟨"./docs/b/.."⟩ := by decide +kernel
  have nameless : ¬ sampleProject.HasPage (sourceAt [] ["b", "..c"]) := by decide +kernel
  have above : (sampleProject.pagePlace [] (sourceAt [] ["b", "..c"])).dropLast = ["docs", "b"] := by
    decide +kernel
  have clear : ¬ (sampleTree namelessEntries).top.Blocked ["docs", "b"] := by
    rintro ⟨place, bytes, inside, file⟩
    rcases List.prefix_cons_iff.mp inside with rfl | ⟨rest, rfl, -⟩
    · cases file
    · have missing : (sampleTree namelessEntries).top.seen? ("docs" :: rest) = none := rfl
      rw [missing] at file
      cases file
  have file : (sampleTree namelessEntries).top.seen? (sourceAt [] ["b", "..c"]).path.steps =
      some (.file []) := by decide +kernel
  rw [← above] at clear
  obtain ⟨s, opened, failed⟩ := Project.process_refused h sited rfl file clear
    fun named => absurd named nameless
  rw [page] at failed
  rw [above] at opened
  obtain ⟨files, -, gains⟩ := process_failed_traceless failed
  rw [page] at gains
  refine ⟨s, failed, ⟨rfl, ?_⟩, files, gains⟩
  rw [opened.there]
  exact Option.some_ne_none _

end SourcePages
