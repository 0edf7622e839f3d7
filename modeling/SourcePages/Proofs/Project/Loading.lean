import SourcePages.Project.Basic
import SourcePages.Proofs.Filter.Refusal

namespace SourcePages

variable [Glob.Engine] {t : FileTree} {c : Config}

theorem IgnoreFilter.load_ok_iff {f : IgnoreFilter} : IgnoreFilter.load t c = .ok f ↔
    loadGitignore t c = .ok f.gitignore ∧ readIgnores c.ignores = .ok f.patterns ∧
      readIgnores (if c.skipDeps then dependencyPatterns else []) = .ok f.dependencies := by
  constructor
  · intro loaded
    obtain ⟨gitignore, rules, later⟩ := bind_ok loaded
    obtain ⟨patterns, read, later⟩ := bind_ok later
    obtain ⟨dependencies, below, same⟩ := bind_ok later
    cases same
    exact ⟨rules, mapError_ok.mp read, mapError_ok.mp below⟩
  · rintro ⟨rules, read, below⟩
    rw [IgnoreFilter.load, rules, read, below]
    rfl

namespace Project

theorem loadWith_ok_iff {repository : Repository} {patterns : List String} {p : Project} :
    loadWith t c repository patterns = .ok p ↔ readSelectors patterns = .ok p.selectors ∧
      IgnoreFilter.load t c = .ok p.filter ∧ p.config = c ∧ p.repository = repository := by
  constructor
  · intro loaded
    obtain ⟨selectors, read, later⟩ := bind_ok loaded
    obtain ⟨filter, load, same⟩ := bind_ok later
    cases same
    exact ⟨mapError_ok.mp read, load, rfl, rfl⟩
  · obtain ⟨config, repository', selectors, filter⟩ := p
    rintro ⟨read, load, rfl, rfl⟩
    rw [loadWith, read, load]
    rfl

theorem load_ok {p : Project} (loaded : load t c = .ok p) :
    ∃ repository patterns, patternsOf t c = .ok patterns ∧
      loadWith t c repository patterns = .ok p := by
  obtain ⟨package, -, later⟩ := bind_ok loaded
  obtain ⟨repository, -, later⟩ := bind_ok later
  obtain ⟨patterns, selected, made⟩ := bind_ok later
  exact ⟨repository, patterns, selected, made⟩

end Project

theorem readIgnores_ne_abort {texts : List String} : readIgnores texts ≠ .error .abort := by
  intro failed
  rcases bind_error failed with failed | ⟨patterns, -, failed⟩
  · obtain ⟨text, -, failed⟩ := mapM_error failed
    obtain ⟨fault, other⟩ := Glob.read_error failed
    cases other
  · rcases bind_error failed with failed | ⟨_, -, none⟩
    · unfold Glob.together at failed
      split at failed <;> cases failed
    · cases none

theorem loadGitignore_ne_glob {refusal : Glob.Refusal} :
    loadGitignore t c ≠ .error (.glob refusal) := by
  unfold loadGitignore
  grind

theorem IgnoreFilter.load_ne_abort : IgnoreFilter.load t c ≠ .error (.glob .abort) := by
  have given : ∀ texts, (readIgnores texts).mapError ConfigFault.glob ≠ .error (.glob .abort) := by
    intro texts failed
    obtain ⟨refusal, failed, same⟩ := mapError_error.mp failed
    cases same
    exact readIgnores_ne_abort failed
  intro failed
  rcases bind_error failed with failed | ⟨gitignore, -, failed⟩
  · exact loadGitignore_ne_glob failed
  · rcases bind_error failed with failed | ⟨patterns, -, failed⟩
    · exact given _ failed
    · rcases bind_error failed with failed | ⟨_, -, none⟩
      · exact given _ failed
      · cases none

omit [Glob.Engine] in
theorem readManifest_ne_glob {α : Type} {path : Path}
    {decode : Json5.Value → Except Json5.Fault α} {refusal : Glob.Refusal} :
    readManifest t path decode ≠ .error (.glob refusal) := by
  unfold readManifest parseManifest
  grind

namespace Project

omit [Glob.Engine] in
theorem patternsOf_ne_glob {refusal : Glob.Refusal} : patternsOf t c ≠ .error (.glob refusal) := by
  intro failed
  unfold patternsOf at failed
  split at failed
  · cases failed
  · rcases bind_error failed with failed | ⟨patterns, -, failed⟩
    · exact readManifest_ne_glob failed
    · split at failed <;> cases failed

theorem loadWith_abort {repository : Repository} {patterns : List String}
    (failed : loadWith t c repository patterns = .error (.glob .abort)) :
    readSelectors patterns = .error .abort := by
  rcases bind_error failed with failed | ⟨selectors, -, failed⟩
  · obtain ⟨refusal, failed, same⟩ := mapError_error.mp failed
    cases same
    exact failed
  · rcases bind_error failed with failed | ⟨_, -, none⟩
    · exact absurd failed IgnoreFilter.load_ne_abort
    · cases none

theorem load_abort (failed : load t c = .error (.glob .abort)) :
    ∃ patterns, patternsOf t c = .ok patterns ∧ readSelectors patterns = .error .abort := by
  rcases bind_error failed with failed | ⟨package, -, failed⟩
  · exact absurd failed readManifest_ne_glob
  · rcases bind_error failed with failed | ⟨repository, -, failed⟩
    · unfold Package.repository at failed
      split at failed <;> cases failed
    · rcases bind_error failed with failed | ⟨patterns, selected, failed⟩
      · exact absurd failed patternsOf_ne_glob
      · exact ⟨patterns, selected, loadWith_abort failed⟩

theorem load_ne_abort
    (taken : ∀ patterns, patternsOf t c = .ok patterns → DottedTaken patterns) :
    load t c ≠ .error (.glob .abort) := by
  intro failed
  obtain ⟨patterns, selected, failed⟩ := load_abort failed
  rcases readSelectors_error failed with ⟨fault, other⟩ | ⟨-, left⟩ | ⟨_, _, other, -⟩
  · cases other
  · exact left (taken patterns selected)
  · cases other

end Project

end SourcePages
