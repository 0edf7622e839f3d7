import SourcePages.Proofs.Filter.Include

/-!
Where hidden names stand in a selected path. The filter asks for a dotted segment that a hidden name
fits, not for one that it stands at, so a wildcard takes a hidden name wherever another segment of
the pattern fits it.
-/

namespace SourcePages

def HiddenInPlace (standings : List Standing) : Prop :=
  ∀ s ∈ standings, ∀ name ∈ s.covered, Hidden name → s.pattern.head? = some '.'

/-- Whether a pattern can be set side by side with a path so that hidden names stand at dotted
segments. -/
def InPlace (pattern path : List (List Char)) : Prop :=
  ∃ standings, Aligned standings pattern path ∧ HiddenInPlace standings

/-- Whether no hidden name fits both a segment that begins with a star and one that begins with a
dot. -/
def Discreet (pattern : List (List Char)) : Prop :=
  ∀ wild ∈ pattern, wild.head? = some '*' → ∀ dotted ∈ pattern, dotted.head? = some '.' →
    ∀ name, '/' ∉ name → Hidden name → Fits wild name → ¬ Fits dotted name

/-- Whether a pattern is discreet, or does not select paths of names at all. -/
def Guarded (pattern : List (List Char)) : Prop :=
  ¬ Glob.IsOpen pattern ∧ ([] ∈ pattern ∨ Discreet pattern)

theorem fits_anySegments (name : List Char) : Fits anySegments name := by
  have whole : Fits ('*' :: ['*']) (name ++ []) := .star name (.star [] .nil)
  rwa [List.append_nil] at whole

theorem Hidden.head_of_fits {segment name : List Char} (hidden : Hidden name)
    (fits : Fits segment name) : segment.head? = some '.' ∨ segment.head? = some '*' := by
  cases fits with
  | nil => exact absurd hidden.1 nofun
  | char _ _ => exact .inl hidden.1
  | star _ _ => exact .inr rfl

theorem Discreet.hiddenInPlace {pattern path : List (List Char)} {standings : List Standing}
    (discreet : Discreet pattern) (plain : ∀ name ∈ path, '/' ∉ name) (fit : HiddenFit pattern path)
    (aligned : Aligned standings pattern path) : HiddenInPlace standings := by
  obtain ⟨rfl, rfl, allowed⟩ := aligned
  intro s member name covers hidden
  have fits : Fits s.pattern name := by
    rcases allowed s member with double | ⟨only, covered, fits⟩
    · rw [double]
      exact fits_anySegments name
    · rw [covered] at covers
      rwa [List.mem_singleton.mp covers]
  refine (hidden.head_of_fits fits).resolve_right fun wild => ?_
  have inside : name ∈ standings.flatMap Standing.covered :=
    List.mem_flatMap.mpr ⟨s, member, covers⟩
  obtain ⟨dotted, spelt, head, fits'⟩ := fit name inside hidden
  exact discreet s.pattern (List.mem_map_of_mem member) wild dotted spelt head name
    (plain name inside) hidden fits fits'

theorem Aligned.nil_mem {pattern path : List (List Char)} {standings : List Standing}
    (aligned : Aligned standings pattern path) (empty : [] ∈ pattern) : [] ∈ path := by
  obtain ⟨rfl, rfl, allowed⟩ := aligned
  obtain ⟨s, member, none⟩ := List.mem_map.mp empty
  rcases allowed s member with double | ⟨name, covered, fits⟩
  · rw [none] at double
    cases double
  · rw [none] at fits
    refine List.mem_flatMap.mpr ⟨s, member, ?_⟩
    rw [covered, fits_nil.mp fits]
    exact List.mem_singleton_self _

section

variable {standings : List Standing} (place : HiddenInPlace standings)

include place

theorem HiddenInPlace.countP_covered_le {s : Standing} (member : s ∈ standings)
    (allowed : s.Allowed) : s.covered.countP (Hidden ·) ≤ [s.pattern].countP (Hidden ·) := by
  by_cases dotted : s.pattern.head? = some '.'
  · rcases allowed with double | ⟨name, covered, fits⟩
    · rw [double] at dotted
      exact absurd dotted (by decide)
    · rw [covered, List.countP_singleton, List.countP_singleton]
      by_cases hidden : Hidden name
      · simp [hidden, hidden.of_fits dotted fits]
      · simp [hidden]
  · have none : s.covered.countP (Hidden ·) = 0 := by
      refine List.countP_eq_zero.mpr fun name covers => ?_
      simpa using fun hidden => dotted (place s member name covers hidden)
    omega

theorem HiddenInPlace.countP_le {pattern path : List (List Char)}
    (aligned : Aligned standings pattern path) :
    path.countP (Hidden ·) ≤ pattern.countP (Hidden ·) := by
  -- Each hidden name has a hidden segment to itself.
  obtain ⟨rfl, rfl, allowed⟩ := aligned
  induction standings with
  | nil => exact Nat.le_refl _
  | cons s more ih =>
    have later := ih (fun other member => place other (List.mem_cons_of_mem s member))
      fun other member => allowed other (List.mem_cons_of_mem s member)
    have first := place.countP_covered_le List.mem_cons_self (allowed s List.mem_cons_self)
    rw [List.flatMap_cons, List.countP_append, List.map_cons, ← List.singleton_append,
      List.countP_append]
    exact Nat.add_le_add first later

end

def exampleName (segment : List Char) : List Char := segment.map fun c => if c = '*' then 'a' else c

theorem fits_exampleName (segment : List Char) : Fits segment (exampleName segment) := by
  induction segment with
  | nil => exact .nil
  | cons c rest ih =>
    by_cases star : c = '*'
    · subst star
      exact .star ['a'] ih
    · rw [exampleName, List.map_cons, if_neg star]
      exact .char star ih

theorem exampleName_self {segment : List Char} (single : '*' ∉ segment) :
    exampleName segment = segment := by
  have same : ∀ c ∈ segment, (if c = '*' then 'a' else c) = id c := by
    intro c member
    have other : c ≠ '*' := fun star => single (star ▸ member)
    exact if_neg other
  rw [exampleName, List.map_congr_left same, List.map_id]

theorem exampleName_eq_iff {segment name : List Char} (plain : 'a' ∉ name) (single : '*' ∉ name) :
    exampleName segment = name ↔ segment = name := by
  constructor
  · rintro rfl
    exact (exampleName_self fun star => plain (List.mem_map.mpr ⟨'*', star, rfl⟩)).symm
  · rintro rfl
    exact exampleName_self single

theorem slash_not_mem_exampleName {segment : List Char} (plain : '/' ∉ segment) :
    '/' ∉ exampleName segment := by
  intro inside
  obtain ⟨c, member, same⟩ := List.mem_map.mp inside
  split at same
  · cases same
  · exact plain (same ▸ member)

theorem hidden_exampleName_iff {segment : List Char} :
    Hidden (exampleName segment) ↔ Hidden segment := by
  have head : (exampleName segment).head? = some '.' ↔ segment.head? = some '.' := by
    cases segment with
    | nil => rfl
    | cons c rest =>
      by_cases star : c = '*' <;> simp [exampleName, star]
  rw [Hidden, Hidden, head, Ne, Ne, exampleName_eq_iff (by decide) (by decide),
    exampleName_eq_iff (by decide) (by decide)]

theorem aligned_examples (pattern : List (List Char)) :
    Aligned (pattern.map fun segment => ⟨segment, [exampleName segment]⟩) pattern
      (pattern.map exampleName) := by
  refine ⟨by simp [Function.comp_def], ?_, fun s member => ?_⟩
  · rw [List.flatMap_map]
    exact List.map_eq_flatMap.symm
  · obtain ⟨segment, -, rfl⟩ := List.mem_map.mp member
    exact .inr ⟨_, rfl, fits_exampleName segment⟩

def examplesAround (before : List (List Char)) (name : List Char) (after : List (List Char)) :
    List (List Char) :=
  before.map exampleName ++ name :: after.map exampleName

theorem examplesAround_ne_nil (before : List (List Char)) (name : List Char)
    (after : List (List Char)) : examplesAround before name after ≠ [] := by
  simp [examplesAround]

section

variable {before after : List (List Char)} {segment name : List Char}

theorem mem_examplesAround {other : List Char} : other ∈ examplesAround before name after ↔
    other = name ∨ ∃ p, (p ∈ before ∨ p ∈ after) ∧ other = exampleName p := by
  simp only [examplesAround, List.mem_append, List.mem_cons, List.mem_map]
  grind

theorem reaches_examplesAround (fits : Fits segment name) :
    Reaches (before ++ segment :: after) (examplesAround before name after) := by
  have here : Aligned [⟨segment, [name]⟩] [segment] [name] :=
    ⟨rfl, rfl, List.forall_mem_singleton.mpr (.inr ⟨name, rfl, fits⟩)⟩
  refine ⟨_, (aligned_examples before).append (here.append (aligned_examples after)), ?_⟩
  intro s last _
  have member := List.mem_of_getLast? last
  simp only [List.mem_append, List.mem_map, List.mem_singleton] at member
  rcases member with ⟨_, -, rfl⟩ | rfl | ⟨_, -, rfl⟩ <;> exact List.cons_ne_nil _ _

theorem countP_examplesAround (hidden : Hidden name) (wild : segment.head? = some '*') :
    (examplesAround before name after).countP (Hidden ·) =
      (before ++ segment :: after).countP (Hidden ·) + 1 := by
  have single : ¬ Hidden segment := by
    intro dotted
    rw [dotted.1] at wild
    exact absurd wild (by decide)
  simp only [examplesAround, List.countP_append, List.countP_cons, List.countP_map,
    Function.comp_def, hidden_exampleName_iff, hidden, single]
  simp
  omega

theorem getLast_examplesAround (hidden : Hidden name)
    (last : (before ++ segment :: after).getLast? ≠ some ['.', '.']) :
    (examplesAround before name after).getLast? ≠ some ['.', '.'] := by
  rcases List.eq_nil_or_concat' after with rfl | ⟨front, p, rfl⟩
  · rw [examplesAround, List.map_nil, List.getLast?_concat]
    exact fun same => hidden.2.2 (Option.some.inj same)
  · rw [← List.cons_append, ← List.append_assoc, List.getLast?_concat] at last
    rw [examplesAround, List.map_append, List.map_singleton, ← List.cons_append,
      ← List.append_assoc, List.getLast?_concat, Ne, Option.some_inj,
      exampleName_eq_iff (by decide) (by decide)]
    exact fun same => last (congrArg some same)

end

section

variable {text : String} (spelled : ∀ segment ∈ patternSegments text, Glob.IsSpelled segment)

theorem exists_of_isOpen (opened : Glob.IsOpen (patternSegments text)) :
    (Selector.ofText text).takes "a" = true ∧
      ¬ InPlace (patternSegments text) (pathSegments "a") := by
  have matched : (Selector.ofText text).pattern.matches "a" = true :=
    Glob.matchesBytes_of_isOpen opened true _
  have named : Glob.hasName "a" = true := by decide
  have shown : (Text.segments "a").filter isHidden = [] := by decide
  refine ⟨?_, ?_⟩
  · simp [Selector.takes, Glob.Pattern.accepts, matched, named, shown]
  · rintro ⟨standings, aligned, -⟩
    obtain ⟨stars, parts, -⟩ := opened
    have empty : [] ∈ pathSegments "a" := aligned.nil_mem (by simp [parts])
    revert empty
    decide

include spelled

/-- A closed pattern that is not discreet selects a path in which a wildcard stands for a hidden
name. -/
theorem exists_out_of_place (closed : ¬ Glob.IsOpen (patternSegments text))
    (filled : [] ∉ patternSegments text) (last : (patternSegments text).getLast? ≠ some ['.', '.'])
    (loose : ¬ Discreet (patternSegments text)) :
    ∃ path, (∀ name ∈ pathSegments path, name ≠ []) ∧ (Selector.ofText text).takes path = true ∧
      ¬ InPlace (patternSegments text) (pathSegments path) := by
  simp only [Discreet, not_forall, not_not] at loose
  obtain ⟨wild, member, star, dotted, spelt, dot, name, plain, hidden, fits, fits'⟩ := loose
  obtain ⟨before, after, parts⟩ := List.append_of_mem member
  -- The path has the hidden name at the wildcard, and examples at the other segments.
  have inside : ∀ p, p ∈ before ∨ p ∈ after → p ∈ patternSegments text := by
    intro p around
    rw [parts]
    simp [or_left_comm, around]
  have plain' : ∀ other ∈ examplesAround before name after, '/' ∉ other := by
    intro other member
    rcases mem_examplesAround.mp member with rfl | ⟨p, around, rfl⟩
    · exact plain
    · exact slash_not_mem_exampleName (Text.not_mem_of_mem_split (inside p around))
  have segments := pathSegments_join (examplesAround_ne_nil before name after) plain'
  have here : ∀ other ∈ examplesAround before name after, other ≠ [] := by
    intro other member
    rcases mem_examplesAround.mp member with rfl | ⟨p, around, rfl⟩
    · rintro rfl
      exact absurd hidden.1 nofun
    · intro empty
      rw [List.map_eq_nil_iff.mp empty] at around
      exact filled (inside [] around)
  refine ⟨String.ofList (Text.join ['/'] (examplesAround before name after)), ?_, ?_, ?_⟩
  · rwa [segments]
  · rw [Selector.takes_iff spelled closed, segments]
    refine ⟨fun _ => ?_, parts ▸ reaches_examplesAround fits, ?_⟩
    · obtain ⟨front, other, cut⟩ := (List.eq_nil_or_concat' _).resolve_left
        (examplesAround_ne_nil before name after)
      have ends : (examplesAround before name after).getLast? = some other := by
        rw [cut, List.getLast?_concat]
      refine hasName_of_last (by rw [segments, ends]) (here other (by simp [cut])) ?_
      rintro rfl
      exact getLast_examplesAround hidden (parts ▸ last) ends
    · intro other member hidden'
      rcases mem_examplesAround.mp member with rfl | ⟨p, around, rfl⟩
      · exact ⟨dotted, spelt, dot, fits'⟩
      · exact ⟨p, inside p around, (hidden_exampleName_iff.mp hidden').1, fits_exampleName p⟩
  · -- It has one hidden name more than the pattern has hidden segments.
    rw [segments]
    rintro ⟨standings, aligned, place⟩
    have most := place.countP_le aligned
    rw [countP_examplesAround hidden star, ← parts] at most
    omega

theorem inPlace_of_takes (guarded : Guarded (patternSegments text)) {path : String}
    (named : ∀ name ∈ pathSegments path, name ≠ [])
    (taken : (Selector.ofText text).takes path = true) :
    InPlace (patternSegments text) (pathSegments path) := by
  obtain ⟨-, ⟨standings, aligned, -⟩, fit⟩ := (Selector.takes_iff spelled guarded.1).mp taken
  have discreet : Discreet (patternSegments text) :=
    guarded.2.resolve_left fun empty => named [] (aligned.nil_mem empty) rfl
  exact ⟨standings, aligned,
    discreet.hiddenInPlace (fun _ member => Text.not_mem_of_mem_split member) fit aligned⟩

end

/-- The hidden names of a selected path fit dotted segments of a pattern that selects it. They stand
at dotted segments if the pattern is guarded, and in some path they do not if it is not. -/
theorem hidden_in_place [Glob.Engine] {patterns : List String}
    (spelled : ∀ text ∈ patterns, ∀ segment ∈ patternSegments text, Glob.IsSpelled segment) :
    ((∃ selectors, readSelectors patterns = .ok selectors) ↔ WithinLimits patterns) ∧
    ∀ selectors, readSelectors patterns = .ok selectors →
      (∀ path, (∀ name ∈ pathSegments path, name ≠ []) → anyTakes selectors path = true →
        ∃ text ∈ patterns, HiddenFit (patternSegments text) (pathSegments path) ∧
          (Guarded (patternSegments text) →
            InPlace (patternSegments text) (pathSegments path))) ∧
      ∀ text ∈ patterns, ¬ Guarded (patternSegments text) →
        (patternSegments text).getLast? ≠ some ['.', '.'] →
        ∃ path, (∀ name ∈ pathSegments path, name ≠ []) ∧ anyTakes selectors path = true ∧
          ¬ InPlace (patternSegments text) (pathSegments path) := by
  refine ⟨readSelectors_spelled_iff spelled, fun selectors made => ?_⟩
  rw [readSelectors_spelled spelled made]
  refine ⟨fun path named taken => ?_, fun text member loose last => ?_⟩
  · obtain ⟨text, member, taken⟩ := anyTakes_iff.mp taken
    exact ⟨text, member, Selector.hiddenFit_of_takes (spelled text member) taken,
      fun guarded => inPlace_of_takes (spelled text member) guarded named taken⟩
  · by_cases opened : Glob.IsOpen (patternSegments text)
    · obtain ⟨taken, misplaced⟩ := exists_of_isOpen opened
      exact ⟨"a", by decide, anyTakes_iff.mpr ⟨text, member, taken⟩, misplaced⟩
    · obtain ⟨filled, loose⟩ := not_or.mp fun either => loose ⟨opened, either⟩
      obtain ⟨path, named, taken, misplaced⟩ :=
        exists_out_of_place (spelled text member) opened filled last loose
      exact ⟨path, named, anyTakes_iff.mpr ⟨text, member, taken⟩, misplaced⟩

theorem dotted_segments : patternSegments ".a/*" = [['.', 'a'], ['*']] := by decide

theorem dotted_spelled : ∀ text ∈ [".a/*"], ∀ segment ∈ patternSegments text,
    Glob.IsSpelled segment := by
  intro text member
  rw [List.mem_singleton.mp member, dotted_segments]
  decide

theorem hidden_in_place_sources :
    (∃ selectors, readSelectors ["./src/**/*.ts"] = .ok selectors ∧
      ∀ path, (∀ name ∈ pathSegments path, name ≠ []) → anyTakes selectors path = true →
        InPlace (patternSegments "./src/**/*.ts") (pathSegments path)) ∧
    ∃ selectors, readSelectors [".a/*"] = .ok selectors ∧
      ∃ path, (∀ name ∈ pathSegments path, name ≠ []) ∧ anyTakes selectors path = true ∧
        ¬ InPlace (patternSegments ".a/*") (pathSegments path) := by
  obtain ⟨built, each⟩ := hidden_in_place fun text member segment inside =>
    (sources_spelled text member segment inside).2
  obtain ⟨selectors, read⟩ := built.mpr (withinLimits_boundless _)
  obtain ⟨place, -⟩ := each selectors read
  obtain ⟨built', each'⟩ := hidden_in_place dotted_spelled
  obtain ⟨selectors', read'⟩ := built'.mpr (withinLimits_boundless _)
  obtain ⟨-, loose⟩ := each' selectors' read'
  refine ⟨⟨selectors, read, fun path named taken => ?_⟩,
    ⟨selectors', read', loose ".a/*" List.mem_cons_self ?_ (by decide)⟩⟩
  · obtain ⟨text, member, -, guarded⟩ := place path named taken
    obtain rfl := List.mem_singleton.mp member
    refine guarded ⟨not_isOpen_of_filled fun segment inside =>
      (sources_spelled _ member segment inside).1, .inr ?_⟩
    have bare : ∀ segment ∈ patternSegments "./src/**/*.ts", segment.head? ≠ some '.' := by
      rw [sources_segments]
      decide
    exact fun _ _ _ segment spelt dot => absurd dot (bare segment spelt)
  · rw [dotted_segments]
    rintro ⟨-, empty | discreet⟩
    · revert empty
      decide
    · exact discreet ['*'] (by decide) rfl ['.', 'a'] (by decide) rfl ['.', 'a'] (by decide)
        (by decide) (.star ['.', 'a'] .nil) (Fits.self (by decide))

/-- A wildcard takes a hidden name that another segment of the pattern fits. -/
theorem wildcard_takes_hidden :
    (∀ text ∈ [".a/*"], ∀ segment ∈ patternSegments text, Glob.IsSpelled segment) ∧
    (∀ name ∈ pathSegments ".a/.a", name ≠ []) ∧
    (∃ selectors, readSelectors [".a/*"] = .ok selectors ∧
      anyTakes selectors ".a/.a" = true) ∧
    ¬ ∃ text ∈ [".a/*"], InPlace (patternSegments text) (pathSegments ".a/.a") := by
  refine ⟨dotted_spelled, by decide, ⟨_, rfl, by decide +kernel⟩, ?_⟩
  rintro ⟨text, member, standings, aligned, place⟩
  have most := place.countP_le aligned
  rw [List.mem_singleton.mp member, dotted_segments] at most
  revert most
  decide

end SourcePages
