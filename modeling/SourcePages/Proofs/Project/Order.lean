import Mathlib.Data.List.Nodup
import Mathlib.Data.List.Pairwise
import SourcePages.Proofs.Project.Generate

namespace SourcePages

namespace Project

/-- Whether the page of one file, which is not there at first, is in the way to another page. -/
def Contests (p : Project) (t : FileTree) (f g : SourceFile) : Prop :=
  f ≠ g ∧ t.node? (p.pageOf f) = .error .notFound ∧
    ∃ directory, (p.pageOf g).parent? = some directory ∧
      (p.pageOf f).components <+: directory.components

structure Writes (p : Project) (t : FileTree) (root : Location) (f : SourceFile) : Prop where
  named : p.HasPage f
  clear : ¬ t.top.Blocked (p.pagePlace root f).dropLast
  other : t.top.seen? (p.pagePlace root f) ≠ some .dir

structure Crosses (p : Project) (t : FileTree) (root : Location) (f g : SourceFile) : Prop where
  named : p.HasPage f
  clear : ¬ t.top.Blocked (p.pagePlace root f).dropLast
  missing : t.top.seen? (p.pagePlace root f) = none
  inside : p.pagePlace root f <+: (p.pagePlace root g).dropLast

/-- Files with pages of their own, none of which is in the way to another. -/
structure Uncontested (p : Project) (t : FileTree) (root : Location) (out : List String)
    (files : List SourceFile) : Prop where
  grounded : p.Grounded t root out
  wet : p.config.dryRun = false
  sited : ∀ f ∈ files, Sited t root out f
  places : ∀ f ∈ files, ∀ g ∈ files, p.pagePlace root f = p.pagePlace root g → f = g
  apart : ∀ f ∈ files, ∀ g ∈ files, ¬ p.Crosses t root f g

/-- What a tree has become once some files are documented, in whatever order. -/
structure Settled (p : Project) (t : FileTree) (root : Location) (done : List SourceFile)
    (s : FileTree) : Prop where
  workingDir : s.workingDir = t.workingDir
  page : ∀ f ∈ done, p.Writes t root f → ∀ bytes, t.top.seen? f.path.steps = some (.file bytes) →
    s.top.seen? (p.pagePlace root f) = some (.file (p.pageBytes f bytes))
  opened : ∀ f ∈ done, ¬ t.top.Blocked (p.pagePlace root f).dropLast →
    ∀ above, above <+: (p.pagePlace root f).dropLast → s.top.seen? above = some .dir
  other : ∀ place, (∀ f ∈ done, p.Writes t root f → place ≠ p.pagePlace root f) →
    (∀ f ∈ done, ¬ t.top.Blocked (p.pagePlace root f).dropLast →
      ¬ place <+: (p.pagePlace root f).dropLast) →
    s.top.seen? place = t.top.seen? place

section

variable {p : Project} {t s u : FileTree} {root : Location} {out : List String}
  {files done others : List SourceFile} {f g : SourceFile}

theorem Settled.refl : p.Settled t root [] t := by
  refine ⟨rfl, ?_, ?_, fun _ _ _ => rfl⟩
  · intro f member
    cases member
  · intro f member
    cases member

theorem Settled.cases (settled : p.Settled t root done s) (place : Location) :
    (∃ f ∈ done, p.Writes t root f ∧ place = p.pagePlace root f) ∨
    (∃ f ∈ done, ¬ t.top.Blocked (p.pagePlace root f).dropLast ∧
      place <+: (p.pagePlace root f).dropLast) ∨
    s.top.seen? place = t.top.seen? place := by
  by_cases page : ∃ f ∈ done, p.Writes t root f ∧ place = p.pagePlace root f
  · exact .inl page
  · by_cases above : ∃ f ∈ done, ¬ t.top.Blocked (p.pagePlace root f).dropLast ∧
        place <+: (p.pagePlace root f).dropLast
    · exact .inr (.inl above)
    · refine .inr (.inr (settled.other place ?_ ?_))
      · exact fun f member writes same => page ⟨f, member, writes, same⟩
      · exact fun f member clear inside => above ⟨f, member, clear, inside⟩

theorem Settled.alike (left : p.Settled t root done s) (right : p.Settled t root others u)
    (same : ∀ f, f ∈ done ↔ f ∈ others)
    (sources : ∀ f ∈ done, ∃ bytes, t.top.seen? f.path.steps = some (.file bytes)) :
    s.top.Alike u.top := by
  intro place
  rcases left.cases place with ⟨f, member, writes, rfl⟩ | ⟨f, member, clear, above⟩ | unchanged
  · obtain ⟨bytes, file⟩ := sources f member
    rw [left.page f member writes bytes file, right.page f ((same f).mp member) writes bytes file]
  · rw [left.opened f member clear place above,
      right.opened f ((same f).mp member) clear place above]
  · rcases right.cases place with ⟨f, member, writes, rfl⟩ | ⟨f, member, clear, above⟩ | still
    · have before := (same f).mpr member
      obtain ⟨bytes, file⟩ := sources f before
      rw [left.page f before writes bytes file, right.page f member writes bytes file]
    · rw [left.opened f ((same f).mpr member) clear place above,
        right.opened f member clear place above]
    · rw [unchanged, still]

theorem pagePlace_not_inside (h : p.Grounded t root out) (sited : Sited u root out f) :
    ¬ p.pagePlace root f <+: (p.pagePlace root f).dropLast := by
  obtain ⟨dirs, name, site⟩ := sited
  rw [h.dropLast_pagePlace site, h.pagePlace_eq site]
  exact Location.not_concat_inside _ _

namespace Uncontested

variable (h : p.Uncontested t root out files)

include h

theorem file_of_writes (left : g ∈ files) (right : f ∈ files) (writes : p.Writes t root g)
    (inside : p.pagePlace root g <+: (p.pagePlace root f).dropLast) :
    ∃ bytes, t.top.seen? (p.pagePlace root g) = some (.file bytes) := by
  rcases h.grounded.free.cases (p.pagePlace root g) with missing | dir | file
  · exact absurd ⟨writes.named, writes.clear, missing, inside⟩ (h.apart g left f right)
  · exact absurd dir writes.other
  · exact file

theorem page_outside (left : g ∈ files) (right : f ∈ files) (writes : p.Writes t root g)
    (clear : ¬ t.top.Blocked (p.pagePlace root f).dropLast) :
    ¬ p.pagePlace root g <+: (p.pagePlace root f).dropLast := by
  intro inside
  obtain ⟨bytes, file⟩ := h.file_of_writes left right writes inside
  exact clear ⟨_, bytes, inside, file⟩

end Uncontested

namespace Settled

variable (settled : p.Settled t root done s) (h : p.Uncontested t root out files)
  (subset : done ⊆ files)

include settled h subset

theorem grounded : p.Grounded s root out := by
  refine h.grounded.mono ?_ settled.workingDir ?_
  · intro place target link
    rcases settled.cases place with ⟨f, member, writes, rfl⟩ | ⟨f, member, clear, above⟩ | unchanged
    · obtain ⟨bytes, file⟩ := (h.sited f (subset member)).source
      rw [settled.page f member writes bytes file] at link
      cases link
    · rw [settled.opened f member clear place above] at link
      cases link
    · rw [unchanged] at link
      exact h.grounded.free place target link
  · intro place dir
    rcases settled.cases place with ⟨f, member, writes, rfl⟩ | ⟨f, member, clear, above⟩ | unchanged
    · exact absurd dir writes.other
    · exact settled.opened f member clear place above
    · rw [unchanged, dir]

theorem file_iff (member : f ∈ files) {above : Location}
    (inside : above <+: (p.pagePlace root f).dropLast) :
    (∃ bytes, s.top.seen? above = some (.file bytes)) ↔
      ∃ bytes, t.top.seen? above = some (.file bytes) := by
  rcases settled.cases above with ⟨g, before, writes, rfl⟩ | ⟨g, before, clear, higher⟩ | unchanged
  · obtain ⟨bytes, file⟩ := (h.sited _ (subset before)).source
    have page := settled.page g before writes bytes file
    exact ⟨fun _ => h.file_of_writes (subset before) member writes inside, fun _ => ⟨_, page⟩⟩
  · have dir := settled.opened g before clear above higher
    constructor
    · rintro ⟨bytes, file⟩
      rw [dir] at file
      cases file
    · rintro ⟨bytes, file⟩
      exact absurd ⟨above, bytes, higher, file⟩ clear
  · rw [unchanged]

theorem blocked_iff (member : f ∈ files) :
    s.top.Blocked (p.pagePlace root f).dropLast ↔ t.top.Blocked (p.pagePlace root f).dropLast := by
  constructor
  · rintro ⟨above, bytes, inside, file⟩
    obtain ⟨old, before⟩ := (settled.file_iff h subset member inside).mp ⟨bytes, file⟩
    exact ⟨above, old, inside, before⟩
  · rintro ⟨above, bytes, inside, file⟩
    obtain ⟨new, after⟩ := (settled.file_iff h subset member inside).mpr ⟨bytes, file⟩
    exact ⟨above, new, inside, after⟩

theorem stopFault_eq (member : f ∈ files) :
    s.stopFault (p.pagePlace root f).dropLast = t.stopFault (p.pagePlace root f).dropLast := by
  have same := settled.file_iff h subset member List.prefix_rfl
  by_cases file : ∃ bytes, t.top.seen? (p.pagePlace root f).dropLast = some (.file bytes)
  · rw [FileTree.stopFault_of_file file, FileTree.stopFault_of_file (same.mpr file)]
  · rw [FileTree.stopFault_of_not_file file,
      FileTree.stopFault_of_not_file fun found => file (same.mp found)]

theorem dir_iff (member : f ∈ files) (fresh : f ∉ done) (named : p.HasPage f)
    (clear : ¬ t.top.Blocked (p.pagePlace root f).dropLast) :
    s.top.seen? (p.pagePlace root f) = some .dir ↔ t.top.seen? (p.pagePlace root f) = some .dir := by
  -- A directory made for another page would be a contest.
  rcases settled.cases (p.pagePlace root f) with
    ⟨g, before, writes, same⟩ | ⟨g, before, open_, inside⟩ | unchanged
  · have other := h.places f member g (subset before) same
    exact absurd before (other ▸ fresh)
  · have dir := settled.opened g before open_ _ inside
    refine ⟨fun _ => ?_, fun _ => dir⟩
    rcases h.grounded.free.cases (p.pagePlace root f) with missing | there | ⟨bytes, file⟩
    · exact absurd ⟨named, clear, missing, inside⟩ (h.apart f member g (subset before))
    · exact there
    · exact absurd ⟨_, bytes, inside, file⟩ open_
  · rw [unchanged]

theorem source_eq (member : f ∈ files) :
    s.top.seen? f.path.steps = t.top.seen? f.path.steps := by
  rcases settled.cases f.path.steps with ⟨g, before, writes, same⟩ | ⟨g, before, clear, inside⟩ |
    unchanged
  · exact absurd same (h.grounded.source_ne_page (h.sited f member) (h.sited g (subset before)))
  · obtain ⟨bytes, file⟩ := (h.sited f member).source
    exact absurd ⟨_, bytes, inside, file⟩ clear
  · exact unchanged

theorem next (member : f ∈ files) (fresh : f ∉ done) (same : u.workingDir = s.workingDir)
    (page : p.Writes t root f → ∀ bytes, t.top.seen? f.path.steps = some (.file bytes) →
      u.top.seen? (p.pagePlace root f) = some (.file (p.pageBytes f bytes)))
    (opened : ¬ t.top.Blocked (p.pagePlace root f).dropLast →
      ∀ above, above <+: (p.pagePlace root f).dropLast → u.top.seen? above = some .dir)
    (other : ∀ place, (p.Writes t root f → place ≠ p.pagePlace root f) →
      (¬ t.top.Blocked (p.pagePlace root f).dropLast → ¬ place <+: (p.pagePlace root f).dropLast) →
      u.top.seen? place = s.top.seen? place) : p.Settled t root (f :: done) u := by
  refine ⟨same.trans settled.workingDir, ?_, ?_, ?_⟩
  · intro g inside writes bytes file
    rcases List.mem_cons.mp inside with rfl | before
    · exact page writes bytes file
    · rw [other, settled.page g before writes bytes file]
      · intro _ equal
        have own := h.places g (subset before) f member equal
        exact fresh (own ▸ before)
      · exact h.page_outside (subset before) member writes
  · intro g inside clear above higher
    rcases List.mem_cons.mp inside with rfl | before
    · exact opened clear above higher
    · by_cases own : ¬ t.top.Blocked (p.pagePlace root f).dropLast ∧
          above <+: (p.pagePlace root f).dropLast
      · exact opened own.1 above own.2
      · rw [other, settled.opened g before clear above higher]
        · rintro writes rfl
          exact h.page_outside member (subset before) writes clear higher
        · exact fun reached inside => own ⟨reached, inside⟩
  · intro place pages ways
    rw [other, settled.other]
    · exact fun g before => pages g (List.mem_cons_of_mem _ before)
    · exact fun g before => ways g (List.mem_cons_of_mem _ before)
    · exact pages f List.mem_cons_self
    · exact ways f List.mem_cons_self

theorem process (member : f ∈ files) (fresh : f ∉ done) :
    (p.process s f).2 = (p.process t f).2 ∧ p.Settled t root (f :: done) (p.process s f).1 := by
  have sited := h.sited f member
  have grounded := settled.grounded h subset
  obtain ⟨bytes, file⟩ := (h.sited f member).source
  have still := settled.source_eq h subset member
  rw [file] at still
  -- Whether the way to the page is blocked and whether a directory has its place is the same now
  -- as at first, and nothing else decides what becomes of the file.
  by_cases blocked : t.top.Blocked (p.pagePlace root f).dropLast
  · have stands := (settled.blocked_iff h subset member).mpr blocked
    obtain ⟨q, parent, stopped⟩ := process_stopped grounded sited h.wet still stands
    obtain ⟨r, above, first⟩ := process_stopped h.grounded sited h.wet file blocked
    rw [parent] at above
    cases above
    rw [stopped, first, settled.stopFault_eq h subset member]
    refine ⟨rfl, settled.next h subset member fresh rfl ?_ ?_ fun _ _ _ => rfl⟩
    · exact fun writes => absurd blocked writes.clear
    · exact fun clear => absurd blocked clear
  · have clear := fun stands => blocked ((settled.blocked_iff h subset member).mp stands)
    by_cases taken : p.HasPage f → t.top.seen? (p.pagePlace root f) = some .dir
    · have holds : p.HasPage f → s.top.seen? (p.pagePlace root f) = some .dir := fun named =>
        (settled.dir_iff h subset member fresh named blocked).mpr (taken named)
      obtain ⟨v, opened, refused⟩ := process_refused grounded sited h.wet still clear holds
      obtain ⟨w, -, first⟩ := process_refused h.grounded sited h.wet file blocked taken
      rw [refused, first]
      refine ⟨rfl, settled.next h subset member fresh opened.workingDir ?_ ?_ ?_⟩
      · exact fun writes => absurd (taken writes.named) writes.other
      · intro _ above higher
        rw [opened.seen, if_pos higher]
      · intro place _ outside
        rw [opened.seen, if_neg (outside blocked)]
    · obtain ⟨named, vacant⟩ := Classical.not_imp.mp taken
      have open_ : s.top.seen? (p.pagePlace root f) ≠ some .dir := fun dir =>
        vacant ((settled.dir_iff h subset member fresh named blocked).mp dir)
      obtain ⟨v, w, opened, filed, written⟩ :=
        process_written grounded sited h.wet still clear named open_
      obtain ⟨x, y, -, -, first⟩ := process_written h.grounded sited h.wet file blocked named vacant
      rw [written, first]
      refine ⟨rfl, settled.next h subset member fresh
        (filed.workingDir.trans opened.workingDir) ?_ ?_ ?_⟩
      · intro _ bytes' file'
        rw [file] at file'
        cases file'
        rw [filed.seen, if_pos rfl]
      · intro _ above higher
        have apart : above ≠ p.pagePlace root f := by
          rintro rfl
          exact pagePlace_not_inside h.grounded sited higher
        rw [filed.seen, if_neg apart, opened.seen, if_pos higher]
      · intro place apart outside
        rw [filed.seen, if_neg (apart ⟨named, blocked, vacant⟩), opened.seen, if_neg (outside blocked)]

end Settled

theorem Settled.processAll (h : p.Uncontested t root out files) {order : List SourceFile}
    (settled : p.Settled t root done s) (subset : done ⊆ files) (inside : order ⊆ files)
    (fresh : ∀ f ∈ order, f ∉ done) (distinct : order.Nodup) :
    (p.processAll s order).2 = order.map (fun f => ⟨f, (p.process t f).2⟩) ∧
      p.Settled t root (order.reverse ++ done) (p.processAll s order).1 := by
  induction order generalizing s done with
  | nil => exact ⟨rfl, settled⟩
  | cons f rest ih =>
    obtain ⟨absent, later⟩ := List.nodup_cons.mp distinct
    have member := inside List.mem_cons_self
    obtain ⟨outcome, next⟩ := settled.process h subset member (fresh f List.mem_cons_self)
    have among : f :: done ⊆ files := List.cons_subset.mpr ⟨member, subset⟩
    obtain ⟨results, final⟩ := ih next among (List.cons_subset.mp inside).2
      (fun g lies => by
        intro before
        rcases List.mem_cons.mp before with rfl | before
        · exact absent lies
        · exact fresh g (List.mem_cons_of_mem _ lies) before) later
    rw [processAll_cons]
    refine ⟨?_, ?_⟩
    · simp only [List.map_cons, outcome, results]
    · simpa using final

section

variable (h : p.Grounded t root out) (left : Sited s root out f)

include h left

theorem contests_iff (right : Sited s root out g) :
    p.Contests t f g ↔ p.Crosses t root f g := by
  have notInside := pagePlace_not_inside h left
  obtain ⟨dirs, name, leftSite⟩ := left
  obtain ⟨others, other, rightSite⟩ := right
  obtain ⟨directory, parent, anchor, steps, leads⟩ := h.page_parent rightSite
  obtain ⟨pageAnchor, pageSteps, -⟩ := h.page_spec leftSite
  have inside_iff : (p.pageOf f).components <+: directory.components ↔
      p.pagePlace root f <+: (p.pagePlace root g).dropLast := by
    rw [Path.components_prefix_iff (pageAnchor.trans anchor.symm), pageSteps, steps,
      h.pagePlace_eq leftSite, h.dropLast_pagePlace rightSite, List.append_assoc,
      List.append_assoc root, List.prefix_append_right_inj, List.prefix_append_right_inj]
  have named_of_inside (inside : p.pagePlace root f <+: (p.pagePlace root g).dropLast) :
      p.HasPage f := by
    rw [h.pagePlace_eq leftSite, h.dropLast_pagePlace rightSite, List.append_assoc root,
      List.prefix_append_right_inj] at inside
    rw [h.hasPage_iff leftSite]
    exact leads.plain _ (inside.subset (by simp))
  constructor
  · rintro ⟨-, missing, q, above, inside⟩
    rw [parent] at above
    cases above
    have within := inside_iff.mp inside
    have named := named_of_inside within
    have page := h.page_leads leftSite (h.isName_pageFile leftSite named)
    refine ⟨named, ?_, ?_, within⟩
    · rw [h.dropLast_pagePlace leftSite]
      intro blocked
      rw [page.node?_stopped h.free blocked] at missing
      cases missing
    · rw [h.pagePlace_eq leftSite, List.append_assoc, Node.seen?, Option.map_eq_none_iff]
      by_contra there
      obtain ⟨x, found⟩ := Option.ne_none_iff_exists'.mp there
      rw [page.node?_found h.free found] at missing
      cases missing
  · rintro ⟨named, clear, missing, within⟩
    have page := h.page_leads leftSite (h.isName_pageFile leftSite named)
    rw [h.dropLast_pagePlace leftSite] at clear
    rw [h.pagePlace_eq leftSite, List.append_assoc] at missing
    refine ⟨?_, page.node?_missing h.free clear missing, directory, parent, inside_iff.mpr within⟩
    rintro rfl
    exact notInside within

theorem Crosses.clear_right (crosses : p.Crosses t root f g) :
    ¬ t.top.Blocked (p.pagePlace root g).dropLast := by
  obtain ⟨dirs, name, site⟩ := left
  obtain ⟨named, clear, missing, inside⟩ := crosses
  rintro ⟨above, bytes, higher, file⟩
  rcases List.prefix_or_prefix_of_prefix higher inside with before | behind
  · rw [h.dropLast_pagePlace site] at clear
    rw [h.pagePlace_eq site] at before missing
    rcases List.prefix_concat_iff.mp before with rfl | further
    · rw [missing] at file
      cases file
    · exact clear ⟨above, bytes, further, file⟩
  · obtain ⟨rest, rfl⟩ := behind
    cases rest with
    | nil =>
      rw [List.append_nil, missing] at file
      cases file
    | cons next more =>
      rw [Node.seen_dir_of_below (by rw [file]; exact Option.some_ne_none _)] at missing
      cases missing

theorem Crosses.outcome_before (crosses : p.Crosses t root f g) (wet : p.config.dryRun = false)
    {bytes : List UInt8} (file : t.top.seen? f.path.steps = some (.file bytes)) :
    (p.process t f).2 = .ok (p.documentOf f bytes) := by
  have vacant : t.top.seen? (p.pagePlace root f) ≠ some .dir := by
    rw [crosses.missing]
    exact (Option.some_ne_none _).symm
  obtain ⟨u, v, -, -, written⟩ := process_written h left wet file crosses.clear crosses.named vacant
  rw [written]

theorem Crosses.outcome_after (crosses : p.Crosses t root f g) (wet : p.config.dryRun = false)
    (right : Sited s root out g) {bytes others : List UInt8}
    (file : t.top.seen? f.path.steps = some (.file bytes))
    (other : t.top.seen? g.path.steps = some (.file others)) :
    (p.process (p.process t g).1 f).2 = .error (.write (p.pageOf f) .isDirectory) := by
  have reached := crosses.clear_right h left
  have dir : (p.process t g).1.top.seen? (p.pagePlace root f) = some .dir := by
    by_cases taken : p.HasPage g → t.top.seen? (p.pagePlace root g) = some .dir
    · obtain ⟨u, opened, refused⟩ := process_refused h right wet other reached taken
      rw [refused, opened.seen, if_pos crosses.inside]
    · obtain ⟨named, vacant⟩ := Classical.not_imp.mp taken
      obtain ⟨u, v, opened, filed, written⟩ := process_written h right wet other reached named vacant
      have inside := crosses.inside
      have apart : p.pagePlace root f ≠ p.pagePlace root g := by
        intro same
        rw [same] at inside
        exact pagePlace_not_inside h right inside
      rw [written, filed.seen, if_neg apart, opened.seen, if_pos inside]
  have run := documents_process h right wet other
  have grounded := h.mono run.linkFree run.workingDir run.grown
  have still : (p.process t g).1.top.seen? f.path.steps = some (.file bytes) := by
    apply run.kept _ _ file
    intro r inside d done
    rw [List.mem_singleton.mp inside]
    exact h.source_ne_page left right
  have clear := Node.not_blocked_of_dir (Node.seen_dir_above (List.dropLast_prefix _) dir)
  obtain ⟨u, -, refused⟩ := process_refused grounded left wet still clear fun _ => dir
  rw [refused]

end

end

def resultsFor (files : List SourceFile) (results : List Result) : List Result :=
  files.filterMap fun f => results.find? (·.file = f)

/-- Whether a run in some order comes to the same as the run in the order of the files: the same tree,
the same result for each file, and the same report. -/
structure Agrees (p : Project) (t : FileTree) (order : List SourceFile) : Prop where
  workingDir : (p.processAll t order).1.workingDir = (p.generate t).tree.workingDir
  tree : (p.processAll t order).1.top.Alike (p.generate t).tree.top
  results : (p.processAll t order).2.Perm (p.processAll t (p.unique t)).2
  report : p.report (p.sources t) (splitFiles p.config.outputRoot [] (p.sources t))
    (resultsFor (p.unique t) (p.processAll t order).2) = (p.generate t).report

theorem resultsFor_of_perm {files : List SourceFile} {results others : List Result}
    (perm : results.Perm others) (same : others.map (·.file) = files) (distinct : files.Nodup) :
    resultsFor files results = others := by
  subst same
  have found : ∀ r ∈ others, results.find? (·.file = r.file) = some r := by
    intro r member
    have there : ∃ x, results.find? (·.file = r.file) = some x := by
      apply Option.isSome_iff_exists.mp
      rw [List.find?_isSome]
      exact ⟨r, perm.mem_iff.mpr member, by simp⟩
    obtain ⟨x, first⟩ := there
    have equal : x.file = r.file := by simpa using List.find?_some first
    have inside := perm.mem_iff.mp (List.mem_of_find?_eq_some first)
    rw [first, List.inj_on_of_nodup_map distinct inside member equal]
  rw [resultsFor, List.filterMap_map]
  calc others.filterMap ((fun f => results.find? (·.file = f)) ∘ fun r => r.file)
      = others.filterMap some := List.filterMap_congr found
    _ = others := List.filterMap_some

theorem Agrees.of_perm {p : Project} {t : FileTree} {order : List SourceFile}
    (workingDir : (p.processAll t order).1.workingDir = (p.generate t).tree.workingDir)
    (tree : (p.processAll t order).1.top.Alike (p.generate t).tree.top)
    (results : (p.processAll t order).2.Perm (p.processAll t (p.unique t)).2) : p.Agrees t order := by
  refine ⟨workingDir, tree, results, ?_⟩
  rw [resultsFor_of_perm results (processAll_files p t _) (unique_nodup p t)]
  rfl

theorem not_agree_of_contest {p : Project} {t : FileTree} {root : Location} {out : List String}
    {f g : SourceFile} (h : p.Grounded t root out) (wet : p.config.dryRun = false)
    (left : Sited t root out f) (right : Sited t root out g) (first : f ∈ p.unique t)
    (second : g ∈ p.unique t) (contest : p.Contests t f g) :
    ¬ ∀ order, order.Perm (p.unique t) → p.Agrees t order := by
  intro agree
  have crosses := (contests_iff h left right).mp contest
  obtain ⟨bytes, here⟩ := left.source
  obtain ⟨others, there⟩ := right.source
  -- Two orders that begin with the two files: each gets its page where it comes first.
  have behind : g ∈ (p.unique t).erase f := (List.mem_erase_of_ne contest.1.symm).mpr second
  have forward : (f :: g :: ((p.unique t).erase f).erase g).Perm (p.unique t) :=
    ((List.perm_cons_erase first).trans ((List.perm_cons_erase behind).cons f)).symm
  have backward : (g :: f :: ((p.unique t).erase f).erase g).Perm (p.unique t) :=
    (List.Perm.swap f g _).trans forward
  have written : (⟨f, .ok (p.documentOf f bytes)⟩ : Result) ∈ (p.processAll t (p.unique t)).2 := by
    apply (agree _ forward).results.mem_iff.mp
    rw [← crosses.outcome_before h left wet here, processAll_cons]
    exact List.mem_cons_self
  have refused : (⟨f, .error (.write (p.pageOf f) .isDirectory)⟩ : Result) ∈
      (p.processAll t (p.unique t)).2 := by
    apply (agree _ backward).results.mem_iff.mp
    rw [← crosses.outcome_after h left wet right here there, processAll_cons, processAll_cons]
    exact List.mem_cons_of_mem _ List.mem_cons_self
  have distinct : ((p.processAll t (p.unique t)).2.map (·.file)).Nodup := by
    rw [processAll_files]
    exact unique_nodup p t
  have same := List.inj_on_of_nodup_map distinct written refused rfl
  cases same

theorem agree_of_uncontested {p : Project} {t : FileTree} {root : Location} {out : List String}
    (h : p.Uncontested t root out (p.unique t)) {order : List SourceFile}
    (perm : order.Perm (p.unique t)) : p.Agrees t order := by
  have nothing : ∀ files : List SourceFile, ∀ f ∈ files, f ∉ ([] : List SourceFile) :=
    fun _ _ _ => List.not_mem_nil
  obtain ⟨results, settled⟩ := Settled.refl.processAll h (List.nil_subset _) perm.subset
    (nothing _) (perm.nodup_iff.mpr (unique_nodup p t))
  obtain ⟨inOrder, sequential⟩ := Settled.refl.processAll h (List.nil_subset _)
    (List.Subset.refl _) (nothing _) (unique_nodup p t)
  refine .of_perm (settled.workingDir.trans sequential.workingDir.symm) ?_ ?_
  · apply settled.alike sequential
    · intro f
      simp [perm.mem_iff]
    · intro f member
      apply (h.sited f _).source
      simpa [perm.mem_iff] using member
  · rw [results, inOrder]
    exact perm.map _

theorem eq_of_mem_sources {p : Project} {t : FileTree} {f g : SourceFile}
    (other : ¬ ∃ root entries, t.node? p.config.root = .ok (root, .dir entries))
    (first : f ∈ p.sources t) (second : g ∈ p.sources t) : f = g := by
  obtain ⟨location, n, rooted⟩ := exists_root first
  have leaf : n.isDir = false := by
    cases n with
    | dir entries => exact absurd ⟨location, entries, rooted⟩ other
    | file bytes => rfl
    | link target => rfl
  rw [source_of_leaf rooted leaf first, source_of_leaf rooted leaf second]

end Project

def contestedEntries : List (String × Node) :=
  [("a.md", .dir [("b.ts", .file [])]), ("a.ts", .file [])]

theorem contestedEntries_linkFree : (Node.dir contestedEntries).LinkFree := by
  refine .dir (List.forall_mem_cons.mpr ⟨.single _ _, ?_⟩)
  exact List.forall_mem_singleton.mpr (.file _)

theorem contestedEntries_proper : (Node.dir contestedEntries).Proper := by
  refine .dir (by decide) (by decide) (List.forall_mem_cons.mpr ⟨.single (by decide) _, ?_⟩)
  exact List.forall_mem_singleton.mpr (.file _)

theorem contested_sources : sampleProject.sources (sampleTree contestedEntries) =
    [sourceAt [] ["a.md", "b.ts"], sourceAt [] ["a.ts"]] :=
  sampleProject_sources contestedEntries_linkFree rfl (by decide +kernel) (by decide +kernel)

theorem contested_unique : sampleProject.unique (sampleTree contestedEntries) =
    [sourceAt [] ["a.md", "b.ts"], sourceAt [] ["a.ts"]] := by
  rw [Project.unique, contested_sources]
  decide +kernel

/-- Documenting files one after another in any order comes to the same exactly when no two of them
contest: when no page that is not there at first is in the way to another page. -/
theorem orders_agree_iff {p : Project} {t : FileTree} (free : t.top.LinkFree)
    (proper : t.top.Proper) (wet : p.config.dryRun = false)
    (ordinary : p.config.outputDir.Ordinary) :
    (∀ order : List SourceFile, order.Perm (p.unique t) → p.Agrees t order) ↔
      ∀ f ∈ p.unique t, ∀ g ∈ p.unique t, ¬ p.Contests t f g := by
  by_cases rooted : ∃ root entries, t.node? p.config.root = .ok (root, .dir entries)
  · obtain ⟨root, entries, found⟩ := rooted
    have h := Project.Grounded.of_node free ordinary found
    have sites : ∀ f ∈ p.sources t, Sited t root p.config.outputDir.steps f :=
      fun f member => sited_of_mem_sources h proper found member
    have sited : ∀ f ∈ p.unique t, Sited t root p.config.outputDir.steps f :=
      fun f member => sites f (unique_subset member)
    constructor
    · intro agree f first g second contest
      exact Project.not_agree_of_contest h wet (sited f first) (sited g second) first second contest
        agree
    · intro peaceful order perm
      refine Project.agree_of_uncontested ⟨h, wet, sited, ?_, ?_⟩ perm
      · intro f first g second same
        by_contra other
        have symmetric : Std.Symm fun f g : SourceFile => p.pagePlace root f ≠ p.pagePlace root g :=
          ⟨fun _ _ apart => apart.symm⟩
        exact (h.unique_places sites).forall first second other same
      · intro f first g second crosses
        exact peaceful f first g second
          ((Project.contests_iff h (sited f first) (sited g second)).mpr crosses)
  · have same : ∀ f ∈ p.unique t, ∀ g ∈ p.unique t, f = g := fun f first g second =>
      Project.eq_of_mem_sources rooted (unique_subset first) (unique_subset second)
    constructor
    · intro _ f first g second contest
      exact contest.1 (same f first g second)
    · intro _ order perm
      have only : order = p.unique t := by
        apply List.Perm.eq_of_pairwise _ (List.pairwise_of_forall fun _ _ => trivial)
          (List.pairwise_of_forall fun _ _ => trivial) perm
        exact fun f g first second _ _ => same f (perm.mem_iff.mp first) g second
      rw [only]
      exact .of_perm rfl (.refl _) (.refl _)

theorem orders_agree_sample :
    (∀ f ∈ sampleProject.unique (sampleTree sampleEntries),
      ∀ g ∈ sampleProject.unique (sampleTree sampleEntries),
      ¬ sampleProject.Contests (sampleTree sampleEntries) f g) ∧
    ∀ order : List SourceFile, order.Perm (sampleProject.unique (sampleTree sampleEntries)) →
      sampleProject.Agrees (sampleTree sampleEntries) order := by
  have h := Project.Grounded.of_node sampleEntries_linkFree sampleProject_ordinary sampleTree_rooted
  have sited : ∀ f ∈ sampleProject.unique (sampleTree sampleEntries),
      Sited (sampleTree sampleEntries) [] sampleProject.config.outputDir.steps f :=
    fun f member => sited_of_mem_sources h sampleEntries_proper sampleTree_rooted (unique_subset member)
  have apart : ∀ f ∈ [sourceAt [] ["a.ts"], sourceAt [] ["b", "c.ts"]],
      ∀ g ∈ [sourceAt [] ["a.ts"], sourceAt [] ["b", "c.ts"]],
      ¬ sampleProject.pagePlace [] f <+: (sampleProject.pagePlace [] g).dropLast := by
    decide +kernel
  have peaceful : ∀ f ∈ sampleProject.unique (sampleTree sampleEntries),
      ∀ g ∈ sampleProject.unique (sampleTree sampleEntries),
      ¬ sampleProject.Contests (sampleTree sampleEntries) f g := by
    intro f first g second contest
    have crosses := (Project.contests_iff h (sited f first) (sited g second)).mp contest
    rw [sample_unique] at first second
    exact apart f first g second crosses.inside
  exact ⟨peaceful, (orders_agree_iff sampleEntries_linkFree sampleEntries_proper rfl
    sampleProject_ordinary).mpr peaceful⟩

/-- The page of the first file is in the way to the page of the second, so that it matters which of
them comes first. -/
theorem contested_orders_differ :
    (sampleTree contestedEntries).top.LinkFree ∧ (sampleTree contestedEntries).top.Proper ∧
      sampleProject.config.dryRun = false ∧ sampleProject.config.outputDir.Ordinary ∧
      ¬ ∀ order : List SourceFile, order.Perm (sampleProject.unique (sampleTree contestedEntries)) →
        sampleProject.Agrees (sampleTree contestedEntries) order := by
  refine ⟨contestedEntries_linkFree, contestedEntries_proper, rfl, sampleProject_ordinary, ?_⟩
  have h := Project.Grounded.of_node contestedEntries_linkFree sampleProject_ordinary
    sampleTree_rooted
  have sited : ∀ f ∈ sampleProject.sources (sampleTree contestedEntries),
      Sited (sampleTree contestedEntries) [] sampleProject.config.outputDir.steps f :=
    fun f member => sited_of_mem_sources h contestedEntries_proper sampleTree_rooted member
  rw [contested_sources] at sited
  have left := sited (sourceAt [] ["a.ts"]) (by simp)
  have right := sited (sourceAt [] ["a.md", "b.ts"]) (by simp)
  have page : sampleProject.pagePlace [] (sourceAt [] ["a.ts"]) = ["docs", "a.md"] := by
    decide +kernel
  have other : sampleProject.pagePlace [] (sourceAt [] ["a.md", "b.ts"]) =
      ["docs", "a.md", "b.md"] := by decide +kernel
  have contest : sampleProject.Contests (sampleTree contestedEntries) (sourceAt [] ["a.ts"])
      (sourceAt [] ["a.md", "b.ts"]) := by
    apply (Project.contests_iff h left right).mpr
    refine ⟨by decide +kernel, ?_, ?_, ?_⟩
    · rw [page]
      intro blocked
      obtain ⟨above, bytes, inside, file⟩ := blocked
      have concat : above <+: [] ++ ["docs"] := inside
      rcases List.prefix_concat_iff.mp concat with same | top
      · rw [same] at file
        cases file
      · rw [List.prefix_nil.mp top] at file
        cases file
    · rw [page]
      rfl
    · rw [page, other]
      exact ⟨[], rfl⟩
  apply Project.not_agree_of_contest h rfl left right _ _ contest
  · rw [contested_unique]
    simp
  · rw [contested_unique]
    simp

end SourcePages
