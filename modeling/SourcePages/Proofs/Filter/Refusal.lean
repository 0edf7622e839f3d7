import SourcePages.Proofs.Filter.Engine
import SourcePages.Proofs.Filter.Include
import SourcePages.Proofs.Glob.Wellformed

/-!
Which patterns are refused. Hidden segments are read on their own, as if no group or class went on
beyond a slash, so a pattern may be refused that can be read as a whole.
-/

namespace SourcePages

theorem Glob.readable_iff {keepsSlashes : Bool} {text : String} :
    (∃ p, Glob.read keepsSlashes text = .ok p) ↔ Glob.IsGlob text.toList := by
  constructor
  · rintro ⟨p, read⟩
    exact ⟨_, (Glob.read_ok_iff.mp read).2⟩
  · rintro ⟨ts, tokens⟩
    exact ⟨⟨ts, keepsSlashes⟩, Glob.read_ok_iff.mpr ⟨rfl, tokens⟩⟩

theorem Glob.read_error {keepsSlashes : Bool} {text : String} {e : Refusal}
    (failed : Glob.read keepsSlashes text = .error e) : ∃ fault, e = .malformed fault := by
  unfold Glob.read at failed
  split at failed
  · cases failed
  · cases failed
    exact ⟨_, rfl⟩

section

variable [Glob.Engine]

theorem readSelectors_error {patterns : List String} {e : Glob.Refusal}
    (failed : readSelectors patterns = .error e) : (∃ fault, e = .malformed fault) ∨
      (e = .abort ∧ ¬ DottedTaken patterns) ∨ ∃ cause found, e = .limit cause ∧
        patterns.mapM wholePattern = .ok found ∧ Glob.Engine.objection? found = some cause := by
  rcases bind_error failed with failed | ⟨selectors, made, failed⟩
  · obtain ⟨text, member, failed⟩ := mapM_error failed
    rcases bind_error failed with failed | ⟨p, -, failed⟩
    · exact .inl (Glob.read_error failed)
    · rcases bind_error failed with failed | ⟨_, -, none⟩
      · obtain ⟨segment, inside, failed⟩ := mapM_error failed
        rcases bind_error failed with failed | ⟨q, found, failed⟩
        · exact .inl (Glob.read_error failed)
        · split at failed
          · cases failed
          · rename_i left
            cases failed
            obtain ⟨spelt, hidden⟩ := mem_hidden_segments.mp inside
            refine .inr (.inl ⟨rfl, fun taken => left ?_⟩)
            exact taken text member _ spelt hidden q (by rwa [String.ofList_toList])
      · cases none
  · rcases bind_error failed with failed | ⟨_, -, none⟩
    · unfold Glob.together at failed
      split at failed
      · cases failed
      · rename_i cause objection
        cases failed
        have wholes := mapM_map (fun _ _ read => (Selector.read_ok read).2.1) made
        exact .inr (.inr ⟨cause, _, rfl, wholes, objection⟩)
    · cases none

theorem WithinLimits.malformed {patterns : List String} {e : Glob.Refusal}
    (within : WithinLimits patterns) (failed : readSelectors patterns = .error e) :
    ∃ fault, e = .malformed fault := by
  rcases readSelectors_error failed with malformed | ⟨-, left⟩ | ⟨cause, found, -, wholes, objection⟩
  · exact malformed
  · exact absurd within.alone left
  · cases (within.together found wholes).symm.trans objection

end

/-- Patterns are refused if one of them cannot be read as a whole or has a hidden segment that
cannot, or if they are beyond the limits of the engine. Hidden segments can be read where slashes
stand outside groups and classes; otherwise it is the groups opened and closed in the segment that
decide, if it does not begin in a class. -/
theorem selectors_refused_iff [Glob.Engine] (patterns : List String) :
    ((∃ e, readSelectors patterns = .error e) ↔ (∃ text ∈ patterns,
      ¬ Glob.IsGlob (trimHere text.toList) ∨
        ∃ segment ∈ patternSegments text, Hidden segment ∧ ¬ Glob.IsGlob segment) ∨
      ¬ WithinLimits patterns) ∧
    (WithinLimits patterns →
      (∀ e, readSelectors patterns = .error e → ∃ fault, e = .malformed fault) ∧
      ((∀ text ∈ patterns, Glob.SlashesFree (trimHere text.toList)) →
        ((∃ e, readSelectors patterns = .error e) ↔
          ∃ text ∈ patterns, ¬ Glob.IsGlob (trimHere text.toList)))) ∧
    ∀ before segment s, Glob.State.after {} before = .ok s → s.place = .plain →
      (Glob.IsGlob segment ↔ s.Closes segment) := by
  have refused : (∃ e, readSelectors patterns = .error e) ↔ (∃ text ∈ patterns,
      ¬ Glob.IsGlob (trimHere text.toList) ∨
        ∃ segment ∈ patternSegments text, Hidden segment ∧ ¬ Glob.IsGlob segment) ∨
      ¬ WithinLimits patterns := by
    rw [error_iff, readSelectors_ok_iff, not_and_or]
    simp only [wholePattern, Glob.readable_iff, String.toList_ofList]
    simp only [not_forall, not_and_or, exists_prop]
  refine ⟨refused, fun within => ⟨fun e => within.malformed, fun free => ?_⟩,
    fun before segment s => Glob.State.isGlob_iff_closes⟩
  rw [refused, or_iff_left (not_not_intro within)]
  refine exists_congr fun text => and_congr_right fun member => or_iff_left_of_imp ?_
  rintro ⟨segment, inside, -, torn⟩ glob
  exact torn ((free text member).segment glob inside)

theorem nested_beyond_limits : ¬ @WithinLimits (Glob.Engine.nested 1) [".{{a}}"] := by
  intro within
  have depths : (Glob.read false ".{{a}}").toOption.map (Glob.depth ·.tokens) = some 2 := by
    decide +kernel
  cases read : Glob.read false ".{{a}}" with
  | error e =>
    rw [read] at depths
    cases depths
  | ok p =>
    have taken := @WithinLimits.alone (Glob.Engine.nested 1) _ within ".{{a}}"
      (List.mem_singleton_self _) ".{{a}}".toList (by decide) (by decide) p read
    have shallow : Glob.depth p.tokens ≤ 1 := of_decide_eq_true taken
    rw [read] at depths
    have deep : Glob.depth p.tokens = 2 := Option.some.inj depths
    omega

theorem selectors_refused_iff_grouped :
    (∀ text ∈ [".{a,b}/*.ts"], Glob.SlashesFree (trimHere text.toList)) ∧
    (¬ ∃ e, readSelectors [".{a,b}/*.ts"] = .error e) ∧
    (∃ e, @readSelectors (Glob.Engine.nested 1) [".{{a}}"] = .error e) ∧
    ∃ s, Glob.State.after {} ".\x7b".toList = .ok s ∧ s.place = .plain ∧
      s.Closes "a,{b}".toList := by
  obtain ⟨-, within, -⟩ := selectors_refused_iff [".{a,b}/*.ts"]
  obtain ⟨-, -, pieces⟩ := selectors_refused_iff []
  have slashes : ∀ text ∈ [".{a,b}/*.ts"], Glob.SlashesFree (trimHere text.toList) := by
    rw [List.forall_mem_singleton]
    intro before behind s cut read
    have once : ".{a,b}".toList ++ '/' :: "*.ts".toList = before ++ '/' :: behind := cut
    obtain ⟨rfl, -, -⟩ :=
      (List.append_cons_inj_of_notMem (by decide) (by decide)).mp once
    cases read
    exact ⟨⟨nofun, nofun⟩, rfl⟩
  refine ⟨slashes, ?_, ?_, ?_⟩
  · rw [(within (withinLimits_boundless _)).2 slashes]
    rintro ⟨text, member, torn⟩
    rw [List.mem_singleton.mp member] at torn
    exact torn ⟨_, rfl⟩
  · exact (@selectors_refused_iff (Glob.Engine.nested 1) [".{{a}}"]).1.mpr
      (.inr nested_beyond_limits)
  · exact ⟨_, rfl, rfl, (pieces ".\x7b".toList "a,{b}".toList _ rfl rfl).mp ⟨_, rfl⟩⟩

/-- A group that goes on beyond a slash is torn by it. -/
theorem torn_pattern_refused :
    readSelectors [".{a,b/c}"] = .error (.malformed ⟨".\x7ba,b", .unclosedGroup⟩) ∧
      ¬ ∃ text ∈ [".{a,b/c}"], ¬ Glob.IsGlob (trimHere text.toList) := by
  refine ⟨rfl, ?_⟩
  rintro ⟨text, member, torn⟩
  rw [List.mem_singleton.mp member] at torn
  exact torn ⟨_, rfl⟩

end SourcePages
