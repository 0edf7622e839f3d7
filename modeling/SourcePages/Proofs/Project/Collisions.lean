import SourcePages.Proofs.Project.Process

namespace SourcePages

section

variable {outputRoot : Path} {given : List PageOwner} {files : List SourceFile} {f : SourceFile}

theorem splitFiles_taken {page : PageOwner}
    (found : given.find? (·.output.same (pagePath outputRoot ⟨f.relative⟩)) = some page)
    (rest : List SourceFile) : splitFiles outputRoot given (f :: rest) =
      ⟨(splitFiles outputRoot given rest).unique,
        ⟨f, pagePath outputRoot ⟨f.relative⟩, page.owner⟩ ::
          (splitFiles outputRoot given rest).collided⟩ := by
  rw [splitFiles]
  simp only [found]

theorem splitFiles_fresh
    (fresh : given.find? (·.output.same (pagePath outputRoot ⟨f.relative⟩)) = none)
    (rest : List SourceFile) : splitFiles outputRoot given (f :: rest) =
      ⟨f :: (splitFiles outputRoot (given ++ [⟨pagePath outputRoot ⟨f.relative⟩,
        f.relative⟩]) rest).unique,
        (splitFiles outputRoot (given ++ [⟨pagePath outputRoot ⟨f.relative⟩,
          f.relative⟩]) rest).collided⟩ := by
  rw [splitFiles]
  simp only [fresh]

theorem unique_subset : (splitFiles outputRoot given files).unique ⊆ files := by
  induction files generalizing given with
  | nil => exact List.Subset.refl _
  | cons file rest ih =>
    cases found : given.find? (·.output.same (pagePath outputRoot ⟨file.relative⟩)) with
    | some page =>
      rw [splitFiles_taken found]
      exact List.subset_cons_of_subset _ ih
    | none =>
      rw [splitFiles_fresh found]
      exact List.cons_subset_cons _ ih

theorem not_same_of_given (member : f ∈ (splitFiles outputRoot given files).unique)
    {output : Path} {owner : String} (before : ⟨output, owner⟩ ∈ given) :
    output.same (pagePath outputRoot ⟨f.relative⟩) = false := by
  induction files generalizing given with
  | nil => cases member
  | cons file rest ih =>
    cases found : given.find? (·.output.same (pagePath outputRoot ⟨file.relative⟩)) with
    | some page =>
      rw [splitFiles_taken found] at member
      exact ih member before
    | none =>
      rw [splitFiles_fresh found] at member
      rcases List.mem_cons.mp member with rfl | later
      · have apart := List.find?_eq_none.mp found _ before
        simp only [Bool.not_eq_true] at apart
        exact apart
      · exact ih later (List.mem_append_left _ before)

theorem unique_pairwise : (splitFiles outputRoot given files).unique.Pairwise fun f g =>
    (pagePath outputRoot ⟨f.relative⟩).same (pagePath outputRoot ⟨g.relative⟩) = false := by
  induction files generalizing given with
  | nil => exact .nil
  | cons file rest ih =>
    cases found : given.find? (·.output.same (pagePath outputRoot ⟨file.relative⟩)) with
    | some page =>
      rw [splitFiles_taken found]
      exact ih
    | none =>
      rw [splitFiles_fresh found]
      refine .cons (fun g member => ?_) ih
      exact not_same_of_given member (List.mem_append_right _ List.mem_cons_self)

end

theorem nodup_unique {outputRoot : Path} {given : List PageOwner} {files : List SourceFile} :
    (splitFiles outputRoot given files).unique.Nodup := by
  rw [List.Nodup]
  refine List.Pairwise.imp ?_ unique_pairwise
  rintro f g apart rfl
  rw [Path.same, beq_self_eq_true] at apart
  cases apart

namespace Project

def unique (p : Project) (t : FileTree) : List SourceFile :=
  (splitFiles p.config.outputRoot [] (p.sources t)).unique

theorem unique_nodup (p : Project) (t : FileTree) : (p.unique t).Nodup := nodup_unique

namespace Grounded

variable {p : Project} {t s : FileTree} {root : Location} {out : List String}

theorem same_of_pagePlace (h : p.Grounded s root out) {f g : SourceFile}
    (left : Sited t root out f) (right : Sited t root out g)
    (same : p.pagePlace root f = p.pagePlace root g) : (p.pageOf f).same (p.pageOf g) = true := by
  obtain ⟨dirs, name, leftSite⟩ := left
  obtain ⟨others, other, rightSite⟩ := right
  obtain ⟨leftAnchor, leftSteps, -⟩ := h.page_spec leftSite
  obtain ⟨rightAnchor, rightSteps, -⟩ := h.page_spec rightSite
  have steps : (p.pageOf f).steps = (p.pageOf g).steps := by
    rw [h.pagePlace_eq leftSite, h.pagePlace_eq rightSite, List.append_assoc root,
      List.append_assoc root] at same
    rw [leftSteps, rightSteps, List.append_assoc _ (out ++ dirs), List.append_assoc _ (out ++ others),
      List.append_cancel_left same]
  exact Path.same_iff_steps.mpr ⟨leftAnchor.trans rightAnchor.symm, steps⟩

theorem source_ne_page (h : p.Grounded s root out) {f g : SourceFile}
    (left : Sited t root out f) (right : Sited t root out g) : f.path.steps ≠ p.pagePlace root g := by
  obtain ⟨dirs, name, leftSite⟩ := left
  obtain ⟨others, other, rightSite⟩ := right
  rw [leftSite.path_steps, h.pagePlace_eq rightSite, List.append_assoc, List.append_assoc]
  intro same
  have nothing := leftSite.apart _ (List.append_cancel_left same)
  simp at nothing

theorem unique_places (h : p.Grounded t root out)
    (sited : ∀ f ∈ p.sources t, Sited t root out f) :
    (p.unique t).Pairwise fun f g => p.pagePlace root f ≠ p.pagePlace root g := by
  refine List.Pairwise.imp_of_mem ?_ unique_pairwise
  intro f g left right apart same
  have alike := h.same_of_pagePlace (sited f (unique_subset left)) (sited g (unique_subset right)) same
  exact Bool.false_ne_true (apart.symm.trans alike)

end Grounded

end Project

end SourcePages
